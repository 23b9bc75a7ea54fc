import LogConfig.Proofs.Effects.Atomic
import LogConfig.Proofs.Invariants.Loggers
import LogConfig.Proofs.Loggers.Ancestry

/-
  Levels in a logger context that is in use. A context grows by being asked for loggers, and its
  loggers change in all but their names (`Graph.Grown`). In each of its states the level in force
  for a name is that of the nearest logger with one; asking for a logger changes it for no name,
  and a new level of a logger only for the names within the logger's; a report tells the same
  levels.
-/

namespace LogConfig

namespace Graph

variable {context : Ref} {g g' : Graph} {created : List String} {c c' : LoggerContext}

/-! ### Contexts in use -/

/-- The names under which loggers were created, in order, after a further name was asked for. -/
def enrolled (c : LoggerContext) (created : List String) (name : String) : List String :=
  if (c.find? name).isSome then created else created ++ [name]

/-- No logger was renamed, and the context has those that it had. -/
structure SameLoggers (context : Ref) (g g' : Graph) : Prop where
  named : ∀ r l, g.logger? r = some l → ∃ l', g'.logger? r = some l' ∧ l'.name = l.name
  table : ∀ c, g.context? context = some c →
    ∃ c', g'.context? context = some c' ∧ c'.root = c.root ∧ c'.loggers = c.loggers

/-- The graphs that a logger context goes through after it was made, with the names under which
its loggers were created. -/
inductive Grown : Ref → List String → Graph → Prop where
  /-- A new context, which has the root logger only. -/
  | new (g : Graph) (name : String) : Grown (g.addContext name).2 [] (g.addContext name).1
  | got {context : Ref} {created : List String} {g : Graph} {c : LoggerContext} :
    Grown context created g → g.context? context = some c → ∀ name,
    Grown context (enrolled c created name) (g.getLogger context c name).1
  | adopted {context : Ref} {created : List String} {g : Graph} {c : LoggerContext} :
    Grown context created g → g.context? context = some c → ∀ name l,
    Grown context (enrolled c created name) (g.adoptLogger context c name l).1
  /-- Any other change, of loggers, of the context, or of what neither is. -/
  | changed {context : Ref} {created : List String} {g g' : Graph} :
    Grown context created g → SameLoggers context g g' → Grown context created g'

theorem logger?_put_of_ne {r s : Ref} (h : s ≠ r) (b : Component) :
    (g.put r b).logger? s = g.logger? s := by
  rw [Graph.logger?, get?_put_of_ne h, Graph.logger?]

theorem sameLoggers_put_logger {r : Ref} {l l' : Logger} (hl : g.logger? r = some l)
    (hname : l'.name = l.name) : SameLoggers context g (g.put r (.logger l')) := by
  refine ⟨fun other lo hlo => ?_, fun c hc => ⟨c, by rwa [context?_put_logger hl], rfl, rfl⟩⟩
  by_cases he : other = r
  · subst he
    cases hl.symm.trans hlo
    exact ⟨l', logger?_eq_some_iff.2 (get?_put_self (get?_of_logger? hl) _), hname⟩
  · exact ⟨lo, by rwa [logger?_put_of_ne he], rfl⟩

/-! ### What the table of a context in use holds -/

/-- The root logger is there by its name, and every other logger under its own, which is none of
the root's, in the order in which they were created. -/
structure Enrols (g : Graph) (c : LoggerContext) (created : List String) : Prop where
  root : ∃ l, g.logger? c.root = some l ∧ l.name = Logger.rootName
  stored : ∀ entry ∈ c.loggers, ∃ l, g.logger? entry.2 = some l ∧ l.name = entry.1
  unrooted : ∀ entry ∈ c.loggers, Logger.isRootName entry.1 = false
  created : Entries.keys c.loggers = created

namespace Enrols

theorem carry (h : g.Enrols c created)
    (hnamed : ∀ r l, g.logger? r = some l → ∃ l', g'.logger? r = some l' ∧ l'.name = l.name)
    (hroot : c'.root = c.root) (hloggers : c'.loggers = c.loggers) : g'.Enrols c' created := by
  refine ⟨?_, ?_, by rw [hloggers]; exact h.unrooted, by rw [hloggers]; exact h.created⟩
  · obtain ⟨l, hl, hname⟩ := h.root
    obtain ⟨l', hl', hname'⟩ := hnamed _ l hl
    exact ⟨l', by rwa [hroot], hname'.trans hname⟩
  · rw [hloggers]
    intro entry hentry
    obtain ⟨l, hl, hname⟩ := h.stored entry hentry
    obtain ⟨l', hl', hname'⟩ := hnamed _ l hl
    exact ⟨l', hl', hname'.trans hname⟩

theorem new (g : Graph) (name : String) :
    ∃ c, (g.addContext name).1.context? (g.addContext name).2 = some c ∧
      (g.addContext name).1.Enrols c [] := by
  have hroot : (g.addContext name).1.logger? g.next = some LoggerContext.newRoot :=
    logger?_eq_some_iff.2 (get?_add_of_some (g.get?_add_next _) _)
  exact ⟨_, context?_eq_some_iff.2 (get?_add_next _ _), ⟨_, hroot, rfl⟩, nofun, nofun, rfl⟩

theorem logger? (h : g.Enrols c created) {name : String} {r : Ref}
    (hr : Entries.find? name c.loggers = some r) : ∃ l, g.logger? r = some l ∧ l.name = name :=
  h.stored _ (Entries.mem_of_find? hr)

theorem tableUnrooted (h : g.Enrols c created) : Unrooted c := by
  intro name hroot
  cases hfind : Entries.find? name c.loggers with
  | none => rfl
  | some r =>
    have hnot := h.unrooted _ (Entries.mem_of_find? hfind)
    rw [hroot] at hnot
    cases hnot

end Enrols

/-! ### One more logger -/

theorem logger?_addLogger (hc : g.context? context = some c) (name : String) (l : Logger)
    (r : Ref) :
    (g.addLogger context c name l).1.logger? r = if r = g.next then some l else g.logger? r := by
  have hcontext := get?_of_context? hc
  have hadded := get?_add_of_some hcontext (.logger l)
  unfold addLogger logger?
  dsimp only
  by_cases hr : r = context
  · subst hr
    rw [get?_put_self hadded, if_neg (ne_next_of_get? hcontext), hcontext]
  · rw [get?_put_of_ne hr, get?_add]
    by_cases hn : r = g.next
    · rw [if_pos hn, if_pos hn]
    · rw [if_neg hn, if_neg hn]

theorem logger?_addLogger_of_some (hc : g.context? context = some c) (name : String) (l : Logger)
    {r : Ref} {lo : Logger} (hlo : g.logger? r = some lo) :
    (g.addLogger context c name l).1.logger? r = some lo := by
  rw [logger?_addLogger hc, if_neg (ne_next_of_get? (get?_of_logger? hlo)), hlo]

/-- The context after a logger was added under a new name. -/
theorem context?_addLogger_new (hc : g.context? context = some c) {name : String}
    (hnew : Entries.find? name c.loggers = none) (l : Logger) :
    (g.addLogger context c name l).1.context? context =
      some { c with loggers := c.loggers ++ [(name, g.next)] } := by
  rw [context?_addLogger hc, Entries.insert_of_find?_eq_none _ hnew]

theorem Enrols.addLogger (h : g.Enrols c created) (hc : g.context? context = some c)
    {name : String} (hnew : c.find? name = none) {l : Logger} (hname : l.name = name) :
    ∃ c', (g.addLogger context c name l).1.context? context = some c' ∧
      (g.addLogger context c name l).1.Enrols c' (created ++ [name]) := by
  obtain ⟨hunrooted, hfresh⟩ := LoggerContext.find?_eq_none_iff.1 hnew
  have hcarried : (g.addLogger context c name l).1.Enrols c created :=
    h.carry (fun r lo hlo => ⟨lo, logger?_addLogger_of_some hc name l hlo, rfl⟩) rfl rfl
  refine ⟨_, context?_addLogger_new hc hfresh l, hcarried.root, ?_, ?_, ?_⟩
  · refine List.forall_mem_append.2 ⟨hcarried.stored, fun entry hentry => ?_⟩
    rw [List.mem_singleton.1 hentry]
    exact ⟨l, by rw [logger?_addLogger hc, if_pos rfl], hname⟩
  · refine List.forall_mem_append.2 ⟨hcarried.unrooted, fun entry hentry => ?_⟩
    rw [List.mem_singleton.1 hentry]
    exact hunrooted
  · rw [Entries.keys, List.map_append, ← h.created]
    rfl

theorem getLogger_of_none {name : String} (hnew : c.find? name = none) :
    g.getLogger context c name = g.addLogger context c name { name } := by
  rw [getLogger, hnew]

theorem adoptLogger_of_none {name : String} (hnew : c.find? name = none) (l : Logger) :
    (g.adoptLogger context c name l).1 = (g.addLogger context c name { l with name }).1 := by
  rw [adoptLogger, hnew]

theorem getLogger_of_some {name : String} {r : Ref} (hr : c.find? name = some r) :
    g.getLogger context c name = (g, r) := by
  rw [getLogger, hr]

theorem adoptLogger_of_some {name : String} {r : Ref} (hr : c.find? name = some r) (l : Logger) :
    (g.adoptLogger context c name l).1 = g := by
  rw [adoptLogger, hr]

/-- A context in use has its loggers in its table, in the order in which they were created. -/
theorem Grown.enrols (h : Grown context created g) :
    ∃ c, g.context? context = some c ∧ g.Enrols c created := by
  induction h with
  | new g name => exact Enrols.new g name
  | @got context created g c _ hc name ih =>
    obtain ⟨c₀, hc₀, henrols⟩ := ih
    cases hc.symm.trans hc₀
    cases hr : c.find? name with
    | none =>
      rw [getLogger_of_none hr, enrolled, hr]
      exact henrols.addLogger hc hr rfl
    | some r =>
      rw [getLogger_of_some hr, enrolled, hr]
      exact ⟨c, hc, henrols⟩
  | @adopted context created g c _ hc name l ih =>
    obtain ⟨c₀, hc₀, henrols⟩ := ih
    cases hc.symm.trans hc₀
    cases hr : c.find? name with
    | none =>
      rw [adoptLogger_of_none hr, enrolled, hr]
      exact henrols.addLogger hc hr rfl
    | some r =>
      rw [adoptLogger_of_some hr, enrolled, hr]
      exact ⟨c, hc, henrols⟩
  | changed _ hsame ih =>
    obtain ⟨c, hc, henrols⟩ := ih
    obtain ⟨c', hc', hroot, hloggers⟩ := hsame.table c hc
    exact ⟨c', hc', henrols.carry hsame.named hroot hloggers⟩

/-! ### What changes a level in force -/

theorem effectiveLevel_congr {name : String} (hroot : g'.rootLevel c' = g.rootLevel c)
    (hown : ∀ ancestor, Logger.IsWithin ancestor name →
      g'.ownLevel? c' ancestor = g.ownLevel? c ancestor) :
    g'.effectiveLevel c' name = g.effectiveLevel c name := by
  have hwalk : ∀ names : List String, (∀ ancestor ∈ names, Logger.IsWithin ancestor name) →
      names.findSome? (g'.ownLevel? c') = names.findSome? (g.ownLevel? c) := by
    intro names hnames
    induction names with
    | nil => rfl
    | cons ancestor names ih =>
      rw [List.findSome?_cons, List.findSome?_cons,
        hown ancestor (hnames ancestor List.mem_cons_self),
        ih fun a ha => hnames a (List.mem_cons_of_mem _ ha)]
  unfold effectiveLevel
  rw [hwalk _ fun ancestor => mem_ancestry.1]
  cases (ancestry name).findSome? (g.ownLevel? c) with
  | some level => rfl
  | none => exact hroot

theorem rootLevel_congr (h : g'.logger? c'.root = g.logger? c.root) :
    g'.rootLevel c' = g.rootLevel c := by
  rw [rootLevel, rootLevel, h]

/-- A logger without a level of its own changes no level in force. -/
theorem Enrols.effectiveLevel_addLogger (h : g.Enrols c created)
    (hc : g.context? context = some c) {asked : String} (hnew : c.find? asked = none)
    {l : Logger} (hlevel : l.level = none)
    (hc' : (g.addLogger context c asked l).1.context? context = some c') (name : String) :
    (g.addLogger context c asked l).1.effectiveLevel c' name = g.effectiveLevel c name := by
  obtain ⟨-, hfresh⟩ := LoggerContext.find?_eq_none_iff.1 hnew
  rw [context?_addLogger hc] at hc'
  cases hc'
  refine effectiveLevel_congr (rootLevel_congr ?_) fun ancestor _ => ?_
  · obtain ⟨root, hroot, -⟩ := h.root
    rw [hroot]
    exact logger?_addLogger_of_some hc asked l hroot
  · rw [ownLevel?, ownLevel?, Entries.find?_insert]
    split
    · next he =>
      rw [he, hfresh, Option.bind_some, logger?_addLogger hc, if_pos rfl]
      exact hlevel
    · cases hr : Entries.find? ancestor c.loggers with
      | none => rfl
      | some r =>
        obtain ⟨lo, hlo, -⟩ := h.logger? hr
        rw [Option.bind_some, Option.bind_some, logger?_addLogger_of_some hc asked l hlo, hlo]

/-- Asking for a logger changes no level in force. -/
theorem Enrols.effectiveLevel_getLogger (h : g.Enrols c created)
    (hc : g.context? context = some c) {asked : String}
    (hc' : (g.getLogger context c asked).1.context? context = some c') (name : String) :
    (g.getLogger context c asked).1.effectiveLevel c' name = g.effectiveLevel c name := by
  cases hr : c.find? asked with
  | none =>
    rw [getLogger_of_none hr] at hc' ⊢
    exact h.effectiveLevel_addLogger hc hr rfl hc' name
  | some r =>
    rw [getLogger_of_some hr] at hc' ⊢
    cases hc.symm.trans hc'
    rfl

theorem modifyLogger_of_some {r : Ref} {l : Logger} (hl : g.logger? r = some l)
    (f : Logger → Logger) : g.modifyLogger r f = g.put r (.logger (f l)) := by
  rw [modifyLogger, hl]

/-- A logger other than the root changes the levels in force for the names within its own only. -/
theorem Enrols.effectiveLevel_put (h : g.Enrols c created) {changed : String} {r : Ref}
    (hroot : Logger.isRootName changed = false) (hr : c.find? changed = some r) (l : Logger)
    {name : String} (hname : ¬ Logger.IsWithin changed name) :
    (g.put r (.logger l)).effectiveLevel c name = g.effectiveLevel c name := by
  rw [LoggerContext.find?, hroot] at hr
  obtain ⟨own, hown, hownName⟩ := h.logger? hr
  refine effectiveLevel_congr (rootLevel_congr (logger?_put_of_ne ?_ _)) fun ancestor hwithin => ?_
  · -- the root logger has another name
    intro he
    obtain ⟨root, hrootLogger, hrootName⟩ := h.root
    rw [he, hown] at hrootLogger
    cases hrootLogger
    rw [← hownName, hrootName] at hroot
    cases hroot
  · rw [ownLevel?, ownLevel?]
    cases hfind : Entries.find? ancestor c.loggers with
    | none => rfl
    | some other =>
      obtain ⟨lo, hlo, hloName⟩ := h.logger? hfind
      have hne : other ≠ r := by
        rintro rfl
        rw [hown] at hlo
        cases hlo
        rw [← hownName, hloName] at hname
        exact hname hwithin
      rw [Option.bind_some, Option.bind_some, logger?_put_of_ne hne]

/-! ### Reports -/

theorem effectiveLevel_rootName (h : Unrooted c) :
    g.effectiveLevel c Logger.rootName = g.rootLevel c := by
  have hancestry : ancestry Logger.rootName = [Logger.rootName] := by decide
  rw [effectiveLevel, hancestry, List.findSome?_cons, h.ownLevel? (by decide), List.findSome?_nil]
  rfl

/-- The name and the level in force that a report tells of a logger. -/
def told (s : LoggerSnapshot) : String × Level := (s.name, s.effectiveLevel)

theorem told_snapshotOf_root (h : Unrooted c) {l : Logger} (hl : g.logger? c.root = some l)
    (hname : l.name = Logger.rootName) :
    told (g.snapshotOf c l) = (Logger.rootName, g.effectiveLevel c Logger.rootName) := by
  have hroot : l.isRoot = true := by
    rw [Logger.isRoot, hname]
    decide
  rw [effectiveLevel_rootName h, rootLevel, hl, told, snapshotOf]
  dsimp only
  rw [if_pos hroot, hname]
  rfl

theorem told_snapshotOf_other {l : Logger} (hroot : Logger.isRootName l.name = false) :
    told (g.snapshotOf c l) = (l.name, g.effectiveLevel c l.name) := by
  have hother : ¬ l.isRoot = true := by
    rw [Logger.isRoot, hroot]
    exact Bool.false_ne_true
  rw [told, snapshotOf]
  dsimp only
  rw [if_neg hother]

/-- A report tells the level in force for every logger: the root first, the others in order of
creation. -/
theorem Enrols.snapshot (h : g.Enrols c created) :
    (g.snapshot c).map told =
      (Logger.rootName :: created).map fun name => (name, g.effectiveLevel c name) := by
  have hothers : ∀ entries : List (String × Ref), (∀ entry ∈ entries, entry ∈ c.loggers) →
      ((entries.map Prod.snd).filterMap fun r => (g.logger? r).map (g.snapshotOf c)).map told =
        (Entries.keys entries).map fun name => (name, g.effectiveLevel c name) := by
    intro entries hentries
    induction entries with
    | nil => rfl
    | cons entry entries ih =>
      have hmem := hentries entry List.mem_cons_self
      obtain ⟨l, hl, hname⟩ := h.stored entry hmem
      have htold := told_snapshotOf_other (g := g) (c := c)
        (by rw [hname]; exact h.unrooted entry hmem)
      rw [hname] at htold
      rw [List.map_cons, List.filterMap_cons, hl]
      exact congrArg₂ List.cons htold (ih fun e he => hentries e (List.mem_cons_of_mem _ he))
  obtain ⟨root, hroot, hname⟩ := h.root
  rw [Graph.snapshot, List.filterMap_cons, hroot, ← h.created]
  exact congrArg₂ List.cons (told_snapshotOf_root h.tableUnrooted hroot hname)
    (hothers c.loggers fun _ => id)

/-! ### The levels of a context in use -/

/-- The levels in force in a context in use, for all names at once. The walk finds that of the
longest name among the name itself and its prefixes that end right before a dot for which a logger
has a level of its own, or the root's. Asking for a logger changes the level in force for no name.
A level that is set for a logger other than the root, or cleared, changes it for the logger's name
and the names that begin with it and a dot at most. A report tells it for the root logger first
and for the others in the order in which they were created. -/
theorem effectiveLevel_inForce (h : Grown context created g) :
    ∃ c, g.context? context = some c ∧
      (∀ name level, g.effectiveLevel c name = level ↔ g.InForce c name level) ∧
      (∀ asked, ∃ c', (g.getLogger context c asked).1.context? context = some c' ∧
        ∀ name, (g.getLogger context c asked).1.effectiveLevel c' name =
          g.effectiveLevel c name) ∧
      (∀ changed r, Logger.isRootName changed = false → c.find? changed = some r →
        ∀ level : Option Level, let g' := g.modifyLogger r fun l => { l with level }
          g'.context? context = some c ∧
            ∀ name, g'.effectiveLevel c name ≠ g.effectiveLevel c name →
              Logger.IsWithin changed name) ∧
      (g.snapshot c).map told =
        (Logger.rootName :: created).map fun name => (name, g.effectiveLevel c name) := by
  obtain ⟨c, hc, henrols⟩ := h.enrols
  refine ⟨c, hc, fun name level => effectiveLevel_eq_iff henrols.tableUnrooted, fun asked => ?_,
    fun changed r hroot hr level => ?_, henrols.snapshot⟩
  · obtain ⟨c', hc', -⟩ := (h.got hc asked).enrols
    exact ⟨c', hc', henrols.effectiveLevel_getLogger hc hc'⟩
  · intro g'
    have hstored := hr
    rw [LoggerContext.find?, hroot] at hstored
    obtain ⟨l, hl, -⟩ := henrols.logger? hstored
    have hg' : g' = g.put r (.logger { l with level }) := modifyLogger_of_some hl _
    refine ⟨?_, fun name hchanged => ?_⟩
    · rw [hg', context?_put_logger hl, hc]
    · refine Classical.byContradiction fun hname => hchanged ?_
      rw [hg']
      exact henrols.effectiveLevel_put hroot hr _ hname

/-- A logger below one with a level has this level, any other name the root's; the report tells
the logger that was created. -/
theorem effectiveLevel_inForce_ancestor :
    let start := ({} : Graph).addContext "test"
    let g := (start.1.getLogger ⟨1⟩ { name := "test", root := ⟨0⟩ } "com.example").1.modifyLogger
      ⟨2⟩ fun l => { l with level := some .warn }
    ∃ c, g.context? ⟨1⟩ = some c ∧ g.InForce c "com.example.db" .warn ∧
      g.InForce c "org.other" .debug ∧
      (g.snapshot c).map told = [("ROOT", .debug), ("com.example", .warn)] := by
  intro start g
  have hgrown : Grown ⟨1⟩ ["com.example"] g := by
    refine .changed ((Grown.new {} "test").got rfl "com.example") ?_
    exact sameLoggers_put_logger (l := { name := "com.example" }) rfl rfl
  obtain ⟨c, hc, hforce, -, -, htold⟩ := effectiveLevel_inForce hgrown
  cases hc
  exact ⟨_, rfl, (hforce _ _).1 (by decide), (hforce _ _).1 (by decide), htold.trans (by decide)⟩

end Graph

end LogConfig
