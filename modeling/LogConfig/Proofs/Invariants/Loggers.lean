import LogConfig.Proofs.Effects.Course

/-
  The loggers of a context. Its root logger always has a level, every other logger is stored under
  its own name, once and never under a spelling of the root's, and none holds an appender twice
  (`Graph.LoggersSound`). No change of a session takes a logger away or moves it, so a name stands
  for the logger it stood for before, and a context that was named keeps its name
  (`Graph.LoggersKept`). Both are shown for each single change; sessions and sequences of sessions
  follow.
-/

namespace LogConfig

theorem Entries.insert_of_find?_eq_none {α : Type} {key : String} (value : α)
    {table : List (String × α)} (h : find? key table = none) :
    insert key value table = table ++ [(key, value)] := by
  induction table with
  | nil => rfl
  | cons entry rest ih =>
    obtain ⟨k, v⟩ := entry
    unfold find? at h
    split at h
    · cases h
    · next hk => rw [insert, if_neg hk, ih h, List.cons_append]

theorem Entries.find?_of_prefix {α : Type} {key : String} {value : α}
    {table table' : List (String × α)} (h : find? key table = some value) (hp : table <+: table') :
    find? key table' = some value := by
  obtain ⟨more, rfl⟩ := hp
  induction table with
  | nil => cases h
  | cons entry rest ih =>
    obtain ⟨k, v⟩ := entry
    unfold find? at h
    rw [List.cons_append, find?]
    split at h
    · next hk => rw [if_pos hk, h]
    · next hk => rw [if_neg hk, ih h]

/-! ### Components that change -/

namespace Component

/-- A change that leaves a logger one of the same name, with a level if it is the root logger, and
with every appender once; nothing else becomes a logger or a context, and no context changes. -/
inductive Steady : Component → Component → Prop where
  | logger {l l' : Logger} : l'.name = l.name →
    (l.isRoot = true → l.level ≠ none → l'.level ≠ none) →
    (l.appenders.Nodup → l'.appenders.Nodup) → Steady (.logger l) (.logger l')
  | other {c c' : Component} : c.variety ≠ .logger → c.variety ≠ .context →
    c'.variety = c.variety → Steady c c'

theorem nodup_attach {l : Logger} (h : l.appenders.Nodup) (appender : Ref) :
    (l.attach appender).appenders.Nodup := by
  unfold Logger.attach
  split
  · exact h
  · next hnew =>
    exact List.nodup_append.2 ⟨h, by simp, fun a ha b hb he => by
      rw [List.mem_singleton.1 hb] at he
      exact hnew (he ▸ ha)⟩

theorem name_attach (l : Logger) (appender : Ref) :
    (l.attach appender).name = l.name ∧ (l.attach appender).level = l.level := by
  unfold Logger.attach
  split
  · exact ⟨rfl, rfl⟩
  · exact ⟨rfl, rfl⟩

theorem steady_of_setProperty {c c' : Component} {name : String} {value : Value}
    (h : c.setProperty name value = .ok c') : c.Steady c' := by
  cases c with
  | logger l =>
    obtain ⟨l', hl, rfl⟩ := exists_of_map_eq_ok h
    have hkept : l'.name = l.name ∧ (l.level ≠ none → l'.level ≠ none) := by
      unfold Logger.setProperty at hl
      dsimp only at hl
      repeat' split at hl
      all_goals cases hl
      · exact ⟨rfl, fun _ => nofun⟩
      · exact ⟨rfl, id⟩
    refine .logger hkept.1 (fun _ => hkept.2) ?_
    rw [appenders_logger_setProperty hl]
    exact id
  | context c => cases h
  | _ =>
    obtain ⟨_, -, rfl⟩ := exists_of_map_eq_ok h
    exact .other nofun nofun rfl

theorem steady_of_setFromText {c c' : Component} {name text : String}
    (h : c.setFromText name text = .ok c') : c.Steady c' := by
  unfold setFromText at h
  dsimp only at h
  split at h
  · cases h
  · cases h
  · cases h
  · split at h
    · cases h
    · exact steady_of_setProperty h

theorem steady_of_setComponent {c c' : Component} {name : String} {child : Ref}
    (h : c.setComponent name child = .ok c') : c.Steady c' := by
  cases c with
  | console _ | file _ | custom _ =>
    obtain ⟨_, -, rfl⟩ := exists_of_map_eq_ok h
    exact .other nofun nofun rfl
  | _ => cases h

theorem steady_of_addComponent {c c' : Component} {name : String} {child : Ref}
    (h : c.addComponent name child = .ok c') : c.Steady c' := by
  cases c with
  | logger l =>
    obtain ⟨l', hl, rfl⟩ := exists_of_map_eq_ok h
    unfold Logger.addComponent at hl
    split at hl
    · cases hl
      obtain ⟨hname, hlevel⟩ := name_attach l child
      exact .logger hname (fun _ hset => by rwa [hlevel]) fun hnodup => nodup_attach hnodup child
    · cases hl
  | console _ | file _ | custom _ =>
    obtain ⟨_, -, rfl⟩ := exists_of_map_eq_ok h
    exact .other nofun nofun rfl
  | _ => cases h

theorem steady_of_activate? {c c' : Component} (h : c.activate? = some (.ok c')) :
    c.Steady c' := by
  rcases variety_of_activate? (by rw [h]; nofun) with hvariety | hvariety
  · exact .other (by rw [hvariety]; nofun) (by rw [hvariety]; nofun) (alike_of_activate? h).variety
  · exact .other (by rw [hvariety]; nofun) (by rw [hvariety]; nofun) (alike_of_activate? h).variety

end Component

/-! ### Contexts and their loggers -/

/-- The second context is the first one later: its root logger is the same, its other loggers are
in place and further ones come after them, and a name that was set stays. -/
structure LoggerContext.Extends (c c' : LoggerContext) : Prop where
  root : c'.root = c.root
  loggers : c.loggers <+: c'.loggers
  name : c.nameLocked = true → c'.nameLocked = true ∧ c'.name = c.name

namespace LoggerContext

theorem Extends.refl (c : LoggerContext) : c.Extends c :=
  ⟨rfl, List.prefix_refl _, fun h => ⟨h, rfl⟩⟩

theorem Extends.trans {c c' c'' : LoggerContext} (h : c.Extends c') (h' : c'.Extends c'') :
    c.Extends c'' := by
  refine ⟨h'.root.trans h.root, h.loggers.trans h'.loggers, fun hlocked => ?_⟩
  obtain ⟨hlocked', hname⟩ := h.name hlocked
  obtain ⟨hlocked'', hname'⟩ := h'.name hlocked'
  exact ⟨hlocked'', hname'.trans hname⟩

theorem Extends.find? {c c' : LoggerContext} (h : c.Extends c') {name : String} {r : Ref}
    (hr : c.find? name = some r) : c'.find? name = some r := by
  unfold LoggerContext.find? at hr ⊢
  split
  · next hroot => rw [if_pos hroot] at hr; rwa [h.root]
  · next hroot => rw [if_neg hroot] at hr; exact Entries.find?_of_prefix hr h.loggers

/-- A name without a logger is no spelling of the root's name, and not in the table. -/
theorem find?_eq_none_iff {c : LoggerContext} {name : String} :
    c.find? name = none ↔
      Logger.isRootName name = false ∧ Entries.find? name c.loggers = none := by
  unfold LoggerContext.find?
  cases Logger.isRootName name <;> simp

/-- A context that was named cannot be given another name. -/
theorem rename_locked {c : LoggerContext} (h : c.nameLocked = true) {name : String}
    (hname : name ≠ c.name) : ∃ reason, c.rename name = .error reason := by
  unfold rename
  rw [h, Bool.true_and, if_pos (bne_iff_ne.2 hname.symm)]
  exact ⟨_, rfl⟩

/-- A context can be named once; then it has that name. -/
theorem rename_eq_ok {c c' : LoggerContext} {name : String} (h : c.rename name = .ok c') :
    c'.name = name ∧ c'.nameLocked = true ∧ (c.nameLocked = true → c'.name = c.name) := by
  unfold rename at h
  split at h
  · cases h
  · next hfree =>
    cases h
    refine ⟨rfl, rfl, fun hlocked => ?_⟩
    rw [hlocked, Bool.true_and, bne_iff_ne, Decidable.not_not] at hfree
    exact hfree.symm

theorem Revised.extends {c c' : LoggerContext} (h : c.Revised c') : c.Extends c' := by
  refine ⟨h.root, ⟨[], by rw [List.append_nil, h.loggers]⟩, fun hlocked => ?_⟩
  rcases h.name with ⟨hname, hkept⟩ | ⟨name, hrename⟩
  · exact ⟨hkept.trans hlocked, hname⟩
  · obtain ⟨-, hlocked', hname⟩ := rename_eq_ok hrename
    exact ⟨hlocked', hname hlocked⟩

end LoggerContext

namespace Graph

/-- What a context has for loggers: a root logger with a level, and further loggers, each under its
own name, which is not the root's in any spelling, and under that name only. -/
structure HasLoggers (g : Graph) (c : LoggerContext) : Prop where
  root : ∃ l, g.logger? c.root = some l ∧ l.isRoot = true ∧ l.level ≠ none
  stored : ∀ entry ∈ c.loggers, ∃ l, g.logger? entry.2 = some l ∧ l.name = entry.1
  unrooted : ∀ entry ∈ c.loggers, Logger.isRootName entry.1 = false
  distinct : (Entries.keys c.loggers).Nodup

/-- The graph of a context whose loggers are in order. -/
structure LoggersSound (context : Ref) (g : Graph) : Prop where
  loggers : ∃ c, g.context? context = some c ∧ g.HasLoggers c
  only : ∀ r c, g.context? r = some c → r = context
  appenders : ∀ r l, g.logger? r = some l → l.appenders.Nodup

/-- The context of the second graph is that of the first one later. -/
def LoggersKept (context : Ref) (g g' : Graph) : Prop :=
  ∀ c, g.context? context = some c → ∃ c', g'.context? context = some c' ∧ c.Extends c'

variable {context : Ref} {g g' g'' : Graph}

theorem LoggersKept.refl (context : Ref) (g : Graph) : g.LoggersKept context g :=
  fun c hc => ⟨c, hc, .refl c⟩

theorem LoggersKept.trans (h : g.LoggersKept context g') (h' : g'.LoggersKept context g'') :
    g.LoggersKept context g'' := by
  intro c hc
  obtain ⟨c', hc', hextends⟩ := h c hc
  obtain ⟨c'', hc'', hextends'⟩ := h' c' hc'
  exact ⟨c'', hc'', hextends.trans hextends'⟩

theorem logger?_eq_some_iff {r : Ref} {l : Logger} :
    g.logger? r = some l ↔ g.get? r = some (.logger l) :=
  ⟨get?_of_logger?, fun h => by rw [logger?, h]⟩

theorem context?_eq_some_iff {r : Ref} {c : LoggerContext} :
    g.context? r = some c ↔ g.get? r = some (.context c) :=
  ⟨get?_of_context?, fun h => by rw [context?, h]⟩

/-- Every logger is still there, of the same name and with a level if it is the root logger. -/
structure LoggersCarried (g g' : Graph) : Prop where
  still : ∀ r l, g.logger? r = some l → ∃ l', g'.logger? r = some l' ∧ l'.name = l.name ∧
    (l.isRoot = true → l.level ≠ none → l'.level ≠ none)
  appenders : (∀ r l, g.logger? r = some l → l.appenders.Nodup) →
    ∀ r l, g'.logger? r = some l → l.appenders.Nodup

theorem HasLoggers.carry {c : LoggerContext} (h : g.HasLoggers c) (hg : g.LoggersCarried g') :
    g'.HasLoggers c := by
  refine ⟨?_, fun entry hentry => ?_, h.unrooted, h.distinct⟩
  · obtain ⟨l, hl, hroot, hlevel⟩ := h.root
    obtain ⟨l', hl', hname, hlevel'⟩ := hg.still _ l hl
    refine ⟨l', hl', ?_, hlevel' hroot hlevel⟩
    rwa [Logger.isRoot, hname]
  · obtain ⟨l, hl, hname⟩ := h.stored entry hentry
    obtain ⟨l', hl', hname', -⟩ := hg.still _ l hl
    exact ⟨l', hl', hname'.trans hname⟩

theorem loggersCarried_put {r : Ref} {c c' : Component} (hc : g.get? r = some c)
    (h : c.Steady c') : g.LoggersCarried (g.put r c') := by
  constructor
  · intro other l hl
    by_cases he : other = r
    · subst he
      have hlogger := Option.some.inj (hc.symm.trans (get?_of_logger? hl))
      cases h with
      | @logger l₀ l' hname hlevel _ =>
        cases hlogger
        exact ⟨l', logger?_eq_some_iff.2 (get?_put_self hc _), hname, hlevel⟩
      | other hnot _ _ => exact absurd (congrArg Component.variety hlogger) hnot
    · refine ⟨l, ?_, rfl, fun _ => id⟩
      rw [logger?_eq_some_iff, get?_put_of_ne he]
      exact get?_of_logger? hl
  · intro hnodup other l hl
    have hget := get?_of_logger? hl
    by_cases he : other = r
    · subst he
      rw [get?_put_self hc] at hget
      cases h with
      | @logger l₀ l' _ _ hkept =>
        cases hget
        exact hkept (hnodup other l₀ (logger?_eq_some_iff.2 hc))
      | other hnot _ hvariety =>
        rw [Option.some.inj hget] at hvariety
        exact absurd hvariety.symm hnot
    · rw [get?_put_of_ne he] at hget
      exact hnodup other l (logger?_eq_some_iff.2 hget)

theorem loggersCarried_put_context {r : Ref} {c : LoggerContext} (hc : g.context? r = some c)
    (c' : LoggerContext) : g.LoggersCarried (g.put r (.context c')) := by
  have hget := get?_of_context? hc
  have hsame : (g.put r (.context c')).logger? = g.logger? := by
    funext other
    unfold logger?
    by_cases he : other = r
    · rw [he, get?_put_self hget, hget]
    · rw [get?_put_of_ne he]
  constructor
  · rw [hsame]
    exact fun _ l hl => ⟨l, hl, rfl, fun _ => id⟩
  · rw [hsame]
    exact id

theorem loggersCarried_add {c : Component} (h : ∀ l, c = .logger l → l.appenders.Nodup) :
    g.LoggersCarried (g.add c) := by
  constructor
  · intro r l hl
    exact ⟨l, logger?_eq_some_iff.2 (get?_add_of_some (get?_of_logger? hl) c), rfl, fun _ => id⟩
  · intro hnodup r l hl
    have hget := get?_of_logger? hl
    rw [get?_add] at hget
    split at hget
    · exact h l (Option.some.inj hget)
    · exact hnodup r l (logger?_eq_some_iff.2 hget)

/-! ### What a single change does -/

namespace LoggersSound

/-- Contexts are where they were, and unchanged. -/
theorem of_carried (h : g.LoggersSound context) (hg : g.LoggersCarried g')
    (hcontext : g'.context? = g.context?) :
    g'.LoggersSound context ∧ g.LoggersKept context g' := by
  obtain ⟨c, hc, hloggers⟩ := h.loggers
  refine ⟨⟨⟨c, by rw [hcontext]; exact hc, hloggers.carry hg⟩, ?_, hg.appenders h.appenders⟩, ?_⟩
  · rw [hcontext]
    exact h.only
  · rw [LoggersKept, hcontext]
    exact fun c hc => ⟨c, hc, .refl c⟩

theorem put (h : g.LoggersSound context) {r : Ref} {c c' : Component} (hc : g.get? r = some c)
    (hsteady : c.Steady c') :
    (g.put r c').LoggersSound context ∧ g.LoggersKept context (g.put r c') := by
  refine h.of_carried (loggersCarried_put hc hsteady) ?_
  funext other
  unfold context?
  by_cases he : other = r
  · rw [he, get?_put_self hc, hc]
    cases hsteady with
    | logger _ _ _ => rfl
    | other _ hnot hvariety =>
      cases c' with
      | context _ => exact absurd hvariety.symm hnot
      | _ =>
        cases c with
        | context _ => exact absurd rfl hnot
        | _ => rfl
  · rw [get?_put_of_ne he]

theorem add (h : g.LoggersSound context) {c : Component} (hcontext : c.variety ≠ .context)
    (hlogger : ∀ l, c = .logger l → l.appenders.Nodup) :
    (g.add c).LoggersSound context ∧ g.LoggersKept context (g.add c) := by
  refine h.of_carried (loggersCarried_add hlogger) ?_
  funext other
  unfold context?
  by_cases he : other = g.next
  · rw [he, get?_add_next, get?_next]
    cases c with
    | context _ => exact absurd rfl hcontext
    | _ => rfl
  · rw [get?_add, if_neg he]

/-- The context may change to a later one that has its loggers in order. -/
theorem put_context (h : g.LoggersSound context) {place : Ref} {c c' : LoggerContext}
    (hc : g.context? place = some c) (hextends : c.Extends c') (hloggers : g.HasLoggers c') :
    (g.put place (.context c')).LoggersSound context ∧
      g.LoggersKept context (g.put place (.context c')) := by
  obtain rfl := h.only place c hc
  have hput : (g.put place (.context c')).context? place = some c' :=
    context?_eq_some_iff.2 (get?_put_self (get?_of_context? hc) _)
  have hcarried := loggersCarried_put_context hc c'
  refine ⟨⟨⟨c', hput, hloggers.carry hcarried⟩, fun other cx hcx => ?_,
    hcarried.appenders h.appenders⟩, fun cx hcx => ?_⟩
  · by_cases he : other = place
    · exact he
    · have hget := get?_of_context? hcx
      rw [get?_put_of_ne he] at hget
      exact h.only other cx (context?_eq_some_iff.2 hget)
  · rw [hc] at hcx
    cases hcx
    exact ⟨c', hput, hextends⟩

theorem revised (h : g.LoggersSound context) {place : Ref} {c c' : LoggerContext}
    (hc : g.context? place = some c) (hrevised : c.Revised c') :
    (g.put place (.context c')).LoggersSound context ∧
      g.LoggersKept context (g.put place (.context c')) := by
  refine h.put_context hc hrevised.extends ?_
  obtain rfl := h.only place c hc
  obtain ⟨c₀, hc₀, hloggers⟩ := h.loggers
  rw [hc] at hc₀
  cases hc₀
  refine ⟨?_, ?_, ?_, ?_⟩
  · rw [hrevised.root]
    exact hloggers.root
  · rw [hrevised.loggers]
    exact hloggers.stored
  · rw [hrevised.loggers]
    exact hloggers.unrooted
  · rw [hrevised.loggers]
    exact hloggers.distinct

/-- A logger of a new name is the last one of the context then. -/
theorem addLogger (h : g.LoggersSound context) {place : Ref} {c : LoggerContext}
    (hc : g.context? place = some c) {name : String} (hnew : c.find? name = none) {l : Logger}
    (hname : l.name = name) (hnodup : l.appenders.Nodup) :
    (g.addLogger place c name l).1.LoggersSound context ∧
      g.LoggersKept context (g.addLogger place c name l).1 := by
  obtain rfl := h.only place c hc
  obtain ⟨hunrooted, hfind⟩ := LoggerContext.find?_eq_none_iff.1 hnew
  obtain ⟨hadded, hkept⟩ := h.add (c := .logger l) nofun fun _ he => by cases he; exact hnodup
  have hc' : (g.add (.logger l)).context? place = some c :=
    context?_eq_some_iff.2 (get?_add_of_some (get?_of_context? hc) _)
  obtain ⟨c₀, hc₀, hloggers⟩ := hadded.loggers
  rw [hc'] at hc₀
  cases hc₀
  suffices hput : (g.addLogger place c name l).1.LoggersSound place ∧
      (g.add (.logger l)).LoggersKept place (g.addLogger place c name l).1 from
    ⟨hput.1, hkept.trans hput.2⟩
  refine hadded.put_context hc' ?_ ?_
  · rw [Entries.insert_of_find?_eq_none _ hfind]
    exact ⟨rfl, List.prefix_append _ _, fun hlocked => ⟨hlocked, rfl⟩⟩
  · rw [Entries.insert_of_find?_eq_none _ hfind]
    refine ⟨hloggers.root, ?_, ?_, ?_⟩
    · refine List.forall_mem_append.2 ⟨hloggers.stored, fun entry hentry => ?_⟩
      rw [List.mem_singleton.1 hentry]
      exact ⟨l, logger?_eq_some_iff.2 (g.get?_add_next _), hname⟩
    · refine List.forall_mem_append.2 ⟨hloggers.unrooted, fun entry hentry => ?_⟩
      rw [List.mem_singleton.1 hentry]
      exact hunrooted
    · rw [Entries.keys, List.map_append]
      have hfresh := (Entries.find?_eq_none_iff name c.loggers).1 hfind
      refine List.nodup_append.2 ⟨hloggers.distinct, by simp, fun key hkey other hother he => ?_⟩
      rw [List.map_singleton, List.mem_singleton] at hother
      rw [he, hother] at hkey
      exact hfresh hkey

end LoggersSound

end Graph
end LogConfig
