import LogConfig.Proofs.Effects.Course
import LogConfig.Proofs.Invariants.Kinds

/-
  The names of appenders. An appender has its name in two places: among its properties, and as the
  key under which the session keeps it for references. Both are written when the appender is
  declared. Afterwards the property can still be set, by a parameter or by a nested element of that
  name (`Call.Renames`), and nothing else changes it (`Session.AltersIf.namesKept`). So an appender
  reports the name it is kept under, unless some call renamed it (`Configurator.bag_named`).
-/

namespace LogConfig

/-! ### The name of an appender -/

namespace AppenderCore

theorem name_setProperty? {a a' : AppenderCore} {name : String} {value : Value}
    (h : a.setProperty? name value = some (.ok a')) (hname : name ≠ "name") :
    a'.name = a.name := by
  unfold setProperty? at h
  dsimp only at h
  rw [if_neg hname] at h
  split at h
  · split at h
    · cases h
      rfl
    · cases h
  · cases h

theorem name_setComponent {a a' : AppenderCore} {owner property : String} {child : Ref}
    (h : a.setComponent owner property child = .ok a') : a'.name = a.name := by
  unfold setComponent at h
  repeat' split at h
  all_goals cases h
  all_goals rfl

theorem name_addComponent {a a' : AppenderCore} {owner property : String} {child : Ref}
    (h : a.addComponent owner property child = .ok a') : a'.name = a.name := by
  unfold addComponent at h
  split at h
  · cases h
    rfl
  · cases h

theorem name_activate {a a' : AppenderCore} (h : a.activate = .ok a') : a'.name = a.name := by
  unfold activate at h
  split at h
  · cases h
  · cases h
    rfl

end AppenderCore

namespace Component

/-- What appenders of the built-in classes share; nothing for other components. -/
def core? : Component → Option AppenderCore
  | console a => some a.core
  | file a => some a.core
  | _ => none

/-- If the one is a built-in appender, so is the other, and has the same name. -/
def SameName (c c' : Component) : Prop :=
  ∀ core, c.core? = some core → ∃ core', c'.core? = some core' ∧ core'.name = core.name

theorem sameName_of_plain {c c' : Component} (h : c.core? = none) : c.SameName c' := by
  intro core hcore
  rw [h] at hcore
  cases hcore

theorem title?_of_core? {c : Component} {core : AppenderCore} (h : c.core? = some core) :
    c.title? = core.name := by
  have named : (core.name.map Value.string).bind Value.text? = core.name := by
    cases core.name with
    | none => rfl
    | some name => rfl
  cases c with
  | console a | file a =>
    cases h
    exact named
  | _ => cases h

theorem isKind_of_core? {c : Component} {core : AppenderCore} (h : c.core? = some core) :
    c.isKind .appender = true := by
  cases c with
  | console a | file a => rfl
  | _ => cases h

theorem name_console_setProperty {a a' : ConsoleAppender} {name : String} {value : Value}
    (h : a.setProperty name value = .ok a') (hname : name ≠ "name") :
    a'.core.name = a.core.name := by
  unfold ConsoleAppender.setProperty at h
  split at h
  · next core hcore =>
    cases h
    exact AppenderCore.name_setProperty? hcore hname
  · cases h
  · split at h
    · split at h
      · cases h
        rfl
      · cases h
    · cases h

theorem name_file_setProperty {a a' : FileAppender} {name : String} {value : Value}
    (h : a.setProperty name value = .ok a') (hname : name ≠ "name") :
    a'.core.name = a.core.name := by
  unfold FileAppender.setProperty at h
  split at h
  · next core hcore =>
    cases h
    exact AppenderCore.name_setProperty? hcore hname
  · cases h
  · rw [core_file_setOwnProperty h]

/-- Appenders publish their name as a text. -/
theorem single?_name {c : Component} {core : AppenderCore} (h : c.core? = some core) :
    Descriptor.single? c.descriptors "name" = some ⟨"name", .basic .string⟩ := by
  have published : ∀ ds ∈ [ConsoleAppender.descriptors, FileAppender.descriptors],
      Descriptor.single? ds "name" = some ⟨"name", .basic .string⟩ := by decide
  cases c with
  | console a => exact published _ (by simp [descriptors])
  | file a => exact published _ (by simp [descriptors])
  | _ => cases h

/-- Setting the name of an appender makes it the text as given. -/
theorem core?_setFromText_name {c c' : Component} {core : AppenderCore} {name text : String}
    (hc : c.core? = some core) (hname : PropertyName.decapitalize name = "name")
    (h : c.setFromText name text = .ok c') :
    ∃ core', c'.core? = some core' ∧ core'.name = some text := by
  unfold setFromText at h
  rw [hname] at h
  dsimp only at h
  rw [single?_name hc] at h
  cases c with
  | console a | file a =>
    cases h
    exact ⟨_, rfl, rfl⟩
  | _ => cases hc

/-- Setting another property of an appender keeps its name. -/
theorem sameName_of_setFromText {c c' : Component} {name text : String}
    (hname : PropertyName.decapitalize name ≠ "name") (h : c.setFromText name text = .ok c') :
    c.SameName c' := by
  unfold setFromText at h
  dsimp only at h
  split at h
  · cases h
  · cases h
  · cases h
  · split at h
    · cases h
    · cases c with
      | console a =>
        obtain ⟨a', ha, rfl⟩ := exists_of_map_eq_ok h
        rintro _ ⟨⟩
        exact ⟨_, rfl, name_console_setProperty ha hname⟩
      | file a =>
        obtain ⟨a', ha, rfl⟩ := exists_of_map_eq_ok h
        rintro _ ⟨⟩
        exact ⟨_, rfl, name_file_setProperty ha hname⟩
      | _ => exact sameName_of_plain rfl

theorem sameName_of_setComponent {c c' : Component} {name : String} {child : Ref}
    (h : c.setComponent name child = .ok c') : c.SameName c' := by
  cases c with
  | console a | file a =>
    obtain ⟨core', hcore, rfl⟩ := exists_of_map_eq_ok h
    rintro _ ⟨⟩
    exact ⟨_, rfl, AppenderCore.name_setComponent hcore⟩
  | _ => exact sameName_of_plain rfl

theorem sameName_of_addComponent {c c' : Component} {name : String} {child : Ref}
    (h : c.addComponent name child = .ok c') : c.SameName c' := by
  cases c with
  | console a | file a =>
    obtain ⟨core', hcore, rfl⟩ := exists_of_map_eq_ok h
    rintro _ ⟨⟩
    exact ⟨_, rfl, AppenderCore.name_addComponent hcore⟩
  | _ => exact sameName_of_plain rfl

theorem name_file_activate {a a' : FileAppender} (h : a.activate = .ok a') :
    a'.core.name = a.core.name := by
  unfold FileAppender.activate at h
  split at h
  · cases h
  · split at h
    · cases h
    · split at h
      · cases h
      · split at h
        · next core hcore =>
          cases h
          exact AppenderCore.name_activate hcore
        · cases h

theorem sameName_of_activate? {c c' : Component} (h : c.activate? = some (.ok c')) :
    c.SameName c' := by
  cases c with
  | console a =>
    obtain ⟨a', ha, rfl⟩ := exists_of_map_eq_ok (Option.some.inj h)
    unfold ConsoleAppender.activate at ha
    rintro _ ⟨⟩
    split at ha
    · next core hcore =>
      cases ha
      exact ⟨_, rfl, AppenderCore.name_activate hcore⟩
    · cases ha
  | file a =>
    obtain ⟨a', ha, rfl⟩ := exists_of_map_eq_ok (Option.some.inj h)
    rintro _ ⟨⟩
    exact ⟨_, rfl, name_file_activate ha⟩
  | _ => exact sameName_of_plain rfl

end Component

/-! ### Names in a graph -/

namespace Graph

/-- What the built-in appender under a handle shares with others. -/
def core? (g : Graph) (r : Ref) : Option AppenderCore := (g.get? r).bind Component.core?

/-- The built-in appenders are still there, under their names. -/
def NamesKept (g g' : Graph) : Prop :=
  ∀ r core, g.core? r = some core → ∃ core', g'.core? r = some core' ∧ core'.name = core.name

variable {g g' g'' : Graph}

theorem title?_of_core? {r : Ref} {core : AppenderCore} (h : g.core? r = some core) :
    g.title? r = core.name := by
  obtain ⟨c, hc, hcore⟩ := Option.bind_eq_some_iff.1 h
  rw [title?, hc]
  exact Component.title?_of_core? hcore

theorem core?_of_get? {r : Ref} {c : Component} (h : g.get? r = some c) : g.core? r = c.core? := by
  rw [core?, h]
  rfl

theorem NamesKept.refl (g : Graph) : g.NamesKept g := fun _ core h => ⟨core, h, rfl⟩

theorem NamesKept.trans (h : g.NamesKept g') (h' : g'.NamesKept g'') : g.NamesKept g'' := by
  intro r core hcore
  obtain ⟨core', hcore', hname⟩ := h r core hcore
  obtain ⟨core'', hcore'', hname'⟩ := h' r core' hcore'
  exact ⟨core'', hcore'', hname'.trans hname⟩

theorem namesKept_put {r : Ref} {c c' : Component} (hc : g.get? r = some c)
    (h : c.SameName c') : g.NamesKept (g.put r c') := by
  intro other core hcore
  by_cases he : other = r
  · subst he
    rw [core?_of_get? hc] at hcore
    rw [core?_of_get? (get?_put_self hc c')]
    exact h core hcore
  · refine ⟨core, ?_, rfl⟩
    rw [core?, get?_put_of_ne he]
    exact hcore

theorem namesKept_add (g : Graph) (c : Component) : g.NamesKept (g.add c) := by
  intro r core hcore
  obtain ⟨held, hheld, hcore⟩ := Option.bind_eq_some_iff.1 hcore
  refine ⟨core, ?_, rfl⟩
  rw [core?_of_get? (get?_add_of_some hheld c), hcore]

theorem namesKept_addLogger {place : Ref} {c : LoggerContext} (hc : g.context? place = some c)
    (name : String) (l : Logger) : g.NamesKept (g.addLogger place c name l).1 :=
  (g.namesKept_add _).trans (namesKept_put (get?_add_of_some (get?_of_context? hc) _)
    (Component.sameName_of_plain rfl))

theorem Adjusted.namesKept {r : Ref} (h : g.Adjusted r g') : g.NamesKept g' := by
  cases h with
  | kept => exact .refl g
  | level hl _ => exact namesKept_put (get?_of_logger? hl) (Component.sameName_of_plain rfl)
  | additive hl => exact namesKept_put (get?_of_logger? hl) (Component.sameName_of_plain rfl)

theorem Attached.namesKept {r child : Ref} (h : g.Attached r child g') : g.NamesKept g' := by
  cases h with
  | slot hc _ _ _ _ hset => exact namesKept_put hc (Component.sameName_of_setComponent hset)
  | member hc _ _ _ _ hadd => exact namesKept_put hc (Component.sameName_of_addComponent hadd)

end Graph

namespace Session

variable {attaches : Prop} {s s' : Session}

/-- Names are kept, and so are the appenders kept by name and the classes. -/
structure NamesKept (s s' : Session) : Prop where
  names : s.graph.NamesKept s'.graph
  bag : s'.appenderBag = s.appenderBag
  classes : s'.classes = s.classes

theorem AltersIf.namesKept (h : s.AltersIf False attaches s') : s.NamesKept s' := by
  cases h with
  | aside hg hb hc => exact ⟨by rw [hg]; exact .refl _, hb, hc⟩
  | created _ => exact ⟨s.graph.namesKept_add _, rfl, rfl⟩
  | kept _ hsets _ _ => exact hsets.elim
  | set hsets _ _ => exact hsets.elim
  | adjusted hadjusted => exact ⟨hadjusted.namesKept, rfl, rfl⟩
  | declared hlogger =>
    refine ⟨?_, rfl, rfl⟩
    cases hlogger with
    | known _ _ => exact .refl _
    | plain hcontext _ => exact Graph.namesKept_addLogger (context?_eq_some hcontext).2 _ _
    | ofClass hcontext _ _ => exact Graph.namesKept_addLogger (context?_eq_some hcontext).2 _ _
  | revised hcontext _ =>
    have hplace := Graph.get?_of_context? (context?_eq_some hcontext).2
    exact ⟨Graph.namesKept_put hplace (Component.sameName_of_plain rfl), rfl, rfl⟩
  | attached _ hattached => exact ⟨hattached.namesKept, rfl, rfl⟩
  | activated hc hactive =>
    exact ⟨Graph.namesKept_put hc (Component.sameName_of_activate? hactive), rfl, rfl⟩

theorem BecomesIf.namesKept (h : s.BecomesIf False attaches s') : s.NamesKept s' := by
  induction h with
  | refl => exact ⟨.refl _, rfl, rfl⟩
  | tail _ hlast ih =>
    obtain ⟨hnames, hbag, hclasses⟩ := hlast.namesKept
    exact ⟨ih.names.trans hnames, hbag.trans ih.bag, hclasses.trans ih.classes⟩

end Session

/-! ### Calls -/

/-- The call is to set the name of a component to a text, if nothing fails before: by a parameter,
that of the object on top of the stack; by a nested element, that of the object on top where it
began. -/
inductive Call.Renames : Call → Ref → String → Prop where
  | param {a : Action} {element name raw value : String} {attributes : Attributes} {s : Session}
    {r : Ref} :
    a.begin = Actions.beginParam → s.top? = some r →
    Phase.requiredAttribute element attributes "name" s = .ok name s →
    PropertyName.decapitalize name = "name" → Entries.find? "value" attributes = some raw →
    s.substitute raw = .ok value → Renames (.begin a element attributes s) r (Text.trim value)
  | nested {a : Action} {element text value : String} {s : Session} {r : Ref} :
    a.body = Action.keepingData Actions.setFromBody → PropertyName.decapitalize element = "name" →
    s.substitute text = .ok value → Renames (.body a element text (some (.owner r)) s) r value

/-- The appenders that built-in classes make are the built-in ones. -/
theorem ClassRegistry.core?_of_builtins {className : String} {c : Component}
    (h : builtins.instanceOfKind? className .appender = .ok c) : ∃ core, c.core? = some core := by
  have listed : ∀ entry ∈ builtins.prototypes, entry.2.isKind .appender = true →
      entry.2.core?.isSome := by decide +kernel
  obtain ⟨entry, hentry, rfl⟩ := mem_of_instanceOfKind? h
  exact Option.isSome_iff_exists.1 (listed entry hentry (isKind_of_instanceOfKind? h))

namespace Call

/-- What a call makes of an appender that is kept by name afterwards. Either it has the name it is
kept under, or it was kept before and has the name it had, or was renamed. -/
inductive Labels (call : Call) (entry : String × Ref) : Prop where
  | named : (∃ core, call.left.graph.core? entry.2 = some core ∧ core.name = some entry.1) →
    Labels call entry
  | kept : entry ∈ call.session.appenderBag →
    (∀ core, call.session.graph.core? entry.2 = some core →
      ∃ core', call.left.graph.core? entry.2 = some core' ∧
        (core'.name = core.name ∨ ∃ title, call.Renames entry.2 title ∧ core'.name = some title)) →
    Labels call entry

/-- What a call with the built-in classes makes of the names of appenders. -/
def LabelsBag (call : Call) : Prop :=
  call.left.classes = call.session.classes ∧ (call.session.classes = ClassRegistry.builtins →
    ∀ entry ∈ call.left.appenderBag, call.Labels entry)

variable {call : Call}

theorem labelsBag_of_namesKept (h : call.session.NamesKept call.left) : call.LabelsBag := by
  refine ⟨h.classes, fun _ entry hentry => ?_⟩
  rw [h.bag] at hentry
  refine .kept hentry fun core hcore => ?_
  obtain ⟨core', hcore', hname⟩ := h.names entry.2 core hcore
  exact ⟨core', hcore', .inl hname⟩

/-- A call that sets a property of one component, and renames it if the property is its name. -/
theorem labelsBag_of_set {r : Ref} {c c' : Component} {name text : String}
    (hc : call.session.graph.get? r = some c) (hset : c.setFromText name text = .ok c')
    (hleft : call.left = { call.session with graph := call.session.graph.put r c' })
    (hrenames : PropertyName.decapitalize name = "name" → call.Renames r text) :
    call.LabelsBag := by
  by_cases hname : PropertyName.decapitalize name = "name"
  · refine ⟨by rw [hleft], fun _ entry hentry => ?_⟩
    rw [hleft] at hentry
    refine .kept hentry fun core hcore => ?_
    rw [hleft]
    by_cases he : entry.2 = r
    · rw [he] at hcore ⊢
      rw [Graph.core?_of_get? hc] at hcore
      obtain ⟨core', hcore', htext⟩ := Component.core?_setFromText_name hcore hname hset
      refine ⟨core', ?_, .inr ⟨text, hrenames hname, htext⟩⟩
      exact (Graph.core?_of_get? (Graph.get?_put_self hc c')).trans hcore'
    · refine ⟨core, ?_, .inl rfl⟩
      show (call.session.graph.put r c').core? entry.2 = some core
      rw [Graph.core?, Graph.get?_put_of_ne he]
      exact hcore
  · refine labelsBag_of_namesKept ⟨?_, by rw [hleft]; rfl, by rw [hleft]⟩
    rw [hleft]
    exact Graph.namesKept_put hc (Component.sameName_of_setFromText hname hset)

end Call

/-- What a call makes of the names of appenders, for each phase of an action. -/
structure Action.LabelsBag (a : Action) : Prop where
  begin : ∀ name attributes s, (Call.begin a name attributes s).LabelsBag
  body : ∀ name text data s, (Call.body a name text data s).LabelsBag
  finish : ∀ name data s, (Call.finish a name data s).LabelsBag

namespace Actions

open Phase Session

/-- The begin of an appender creates it, and names it where it keeps it. -/
theorem appender_begin_labelsBag (n : Nat) (element : String) (attributes : Attributes)
    (s : Session) :
    (Call.begin { appender with instanceId := n } element attributes s).LabelsBag := by
  have quiet : ∀ (ds : List Remark) (c : Component) (st : List Ref),
      s.NamesKept { s.reporting ds with graph := s.graph.add c, stack := st } := fun ds c st =>
    ⟨s.graph.namesKept_add c, rfl, rfl⟩
  have spec := beginAppender_yields element attributes s
  cases hb : beginAppender element attributes s with
  | error signal s' =>
    have hleft : (Call.begin { appender with instanceId := n } element attributes s).left = s' :=
      congrArg Phase.left hb
    obtain ⟨e, -, hs'⟩ := spec.of_error hb
    refine Call.labelsBag_of_namesKept ?_
    rw [hleft]
    rcases hs' with rfl | ⟨className, c, ds, -, rfl⟩
    · exact ⟨.refl _, rfl, rfl⟩
    · exact quiet ds c s.stack
  | ok data s' =>
    have hleft : (Call.begin { appender with instanceId := n } element attributes s).left = s' :=
      congrArg Phase.left hb
    obtain ⟨className, c, ds, hc, -, hs'⟩ := spec.of_ok hb
    rcases hs' with rfl | ⟨name, named, hnamed, rfl⟩
    · refine Call.labelsBag_of_namesKept ?_
      rw [hleft]
      exact quiet ds c _
    · refine ⟨by rw [hleft]; rfl, fun hclasses entry hentry => ?_⟩
      have hbag : entry ∈ Entries.insert name s.graph.next s.appenderBag := by
        rw [hleft] at hentry
        have hkept := (s.reporting ds).appenderBag_keepAppender name s.graph.next
        rwa [← show (s.reporting ds).appenderBag = s.appenderBag from rfl, ← hkept]
      have hadded := s.graph.get?_add_next c
      rcases Entries.mem_insert hbag with rfl | hold
      · obtain ⟨core, hcore⟩ := ClassRegistry.core?_of_builtins (hclasses ▸ hc)
        obtain ⟨core', hcore', hname⟩ :=
          Component.core?_setFromText_name hcore (by decide) hnamed
        refine .named ⟨core', ?_, hname⟩
        rw [hleft]
        exact (Graph.core?_of_get? (Graph.get?_put_self hadded named)).trans hcore'
      · refine .kept hold fun core hcore => ?_
        obtain ⟨held, (hheld : s.graph.get? entry.2 = some held), hcore'⟩ :=
          Option.bind_eq_some_iff.1 hcore
        refine ⟨core, ?_, .inl rfl⟩
        rw [hleft]
        show ((s.graph.add c).put s.graph.next named).core? entry.2 = some core
        rw [Graph.core?, Graph.get?_put_of_ne (Graph.ne_next_of_get? hheld),
          Graph.get?_add_of_some hheld]
        exact hcore'

theorem labelsBag_of_confined {a : Action} (h : a.ConfinedIf False True) : a.LabelsBag :=
  ⟨fun name attributes s => Call.labelsBag_of_namesKept (h.begin name attributes s).namesKept,
    fun name text data s => Call.labelsBag_of_namesKept (h.body name text data s).namesKept,
    fun name data s => Call.labelsBag_of_namesKept (h.finish name data s).namesKept⟩

/-- A phase that leaves the session it was called in. -/
theorem labelsBag_of_left {call : Call} (h : call.left = call.session) : call.LabelsBag :=
  Call.labelsBag_of_namesKept (by rw [h]; exact ⟨.refl _, rfl, rfl⟩)

theorem appender_labelsBag (n : Nat) : { appender with instanceId := n }.LabelsBag :=
  ⟨appender_begin_labelsBag n, fun _ _ _ _ => labelsBag_of_left rfl, fun element data s =>
    have hbecomes : s.BecomesIf False True (left (finishAppender element data s)) :=
      finishAppender_becomes element data s
    Call.labelsBag_of_namesKept hbecomes.namesKept⟩

theorem param_begin_labelsBag (n : Nat) (element : String) (attributes : Attributes)
    (s : Session) : (Call.begin { param with instanceId := n } element attributes s).LabelsBag := by
  have spec := beginParam_sets element attributes s
  cases hb : beginParam element attributes s with
  | error signal s' =>
    obtain ⟨e, -, rfl⟩ := spec.of_error hb
    exact labelsBag_of_left (congrArg Phase.left hb)
  | ok data s' =>
    have hleft : (Call.begin { param with instanceId := n } element attributes s).left = s' :=
      congrArg Phase.left hb
    obtain ⟨-, ⟨ds, rfl⟩ | ⟨target, c, c', name, raw, value, hname, hraw, hvalue, htop, hc, hset,
      rfl⟩⟩ := spec.of_ok hb
    · refine Call.labelsBag_of_namesKept ?_
      rw [hleft]
      exact ⟨.refl _, rfl, rfl⟩
    · exact Call.labelsBag_of_set hc hset hleft fun htitle =>
        .param rfl htop hname htitle hraw hvalue

theorem nestedProperty_body_labelsBag (n : Nat) (element text : String)
    (data : Option ActionData) (s : Session) :
    (Call.body { nestedProperty with instanceId := n } element text data s).LabelsBag := by
  have hleft : (Call.body { nestedProperty with instanceId := n } element text data s).left =
      left (setFromBody element text data s) := rfl
  unfold setFromBody at hleft
  split at hleft
  · next parent =>
    have spec := setFromBody_sets element s text parent
    cases hb : setFromBody element text (some (.owner parent)) s with
    | error signal s' =>
      obtain ⟨e, -, rfl⟩ := spec.of_error hb
      exact labelsBag_of_left (hleft.trans (congrArg left hb))
    | ok _ s' =>
      have hleft := hleft.trans (congrArg left hb)
      obtain ⟨ds, rfl⟩ | ⟨c, c', value, hvalue, hc, hset, rfl⟩ := spec.of_ok hb
      · refine Call.labelsBag_of_namesKept ?_
        rw [hleft]
        exact ⟨.refl _, rfl, rfl⟩
      · exact Call.labelsBag_of_set hc hset hleft fun htitle => .nested rfl htitle hvalue
  · exact labelsBag_of_left hleft

theorem nestedProperty_labelsBag (n : Nat) : { nestedProperty with instanceId := n }.LabelsBag := by
  refine ⟨fun element attributes s => ?_, nestedProperty_body_labelsBag n,
    fun _ _ _ => labelsBag_of_left rfl⟩
  exact labelsBag_of_left ((nestedProperty_begin_yields element attributes s).left
    (fun _ s' hs' => hs'.choose_spec.2.2) fun _ _ he => he)

theorem builtins_labelsBag :
    ∀ entry ∈ builtins, ∀ n, { entry.1 with instanceId := n }.LabelsBag := by
  have confined : ∀ {a : Action}, a.ConfinedIf False True → ∀ n,
      { a with instanceId := n }.LabelsBag := fun h n => labelsBag_of_confined (h.instance n)
  unfold builtins
  simp only [List.forall_mem_cons, List.not_mem_nil, false_imp_iff, implies_true, and_true]
  exact ⟨confined configuration_confined, confined contextName_confined,
    confined property_confined, confined conversionRule_confined, confined logger_confined,
    confined rootLogger_confined, confined level_confined, appender_labelsBag,
    confined appenderRef_confined, confined layout_confined,
    fun n => ⟨param_begin_labelsBag n, fun _ _ _ _ => labelsBag_of_left rfl,
      fun _ _ _ => labelsBag_of_left rfl⟩,
    confined newRule_confined, confined nestedComponent_confined, nestedProperty_labelsBag⟩

theorem labelsBag_of_follows {earlier : List Call} {call : Call}
    (h : call.Follows Action.Builtin earlier) : call.LabelsBag := by
  have builtin : ∀ {a : Action}, a.Builtin → a.LabelsBag := by
    rintro _ ⟨entry, hentry, n, rfl⟩
    exact builtins_labelsBag entry hentry n
  cases call with
  | begin a name attributes s => exact (builtin h).begin name attributes s
  | body a name text data s => exact (builtin h.1).body name text data s
  | finish a name data s => exact (builtin h.1).finish name data s

end Actions

/-! ### Sessions -/

namespace Session

/-- The appender is one of a built-in class, and has the name, or one that a call gave it. -/
def Titled (calls : List Call) (s : Session) (name : String) (r : Ref) : Prop :=
  ∃ core, s.graph.core? r = some core ∧ (core.name = some name ∨
    ∃ call ∈ calls, ∃ title, call.Renames r title ∧ core.name = some title)

/-- The classes are the built-in ones, and the appenders kept have the names they are kept under,
or were renamed. -/
structure Named (calls : List Call) (s : Session) : Prop where
  classes : s.classes = ClassRegistry.builtins
  titled : ∀ entry ∈ s.appenderBag, s.Titled calls entry.1 entry.2

theorem Titled.mono {calls calls' : List Call} {s : Session} {name : String} {r : Ref}
    (h : s.Titled calls name r) (hcalls : calls ⊆ calls') : s.Titled calls' name r := by
  obtain ⟨core, hcore, hname⟩ := h
  refine ⟨core, hcore, hname.imp_right ?_⟩
  rintro ⟨call, hcall, htitle⟩
  exact ⟨call, hcalls hcall, htitle⟩

theorem Named.call {calls : List Call} {call : Call} (hlabels : call.LabelsBag)
    (h : call.session.Named calls) : call.left.Named (call :: calls) := by
  refine ⟨hlabels.1.trans h.classes, fun entry hentry => ?_⟩
  cases hlabels.2 h.classes entry hentry with
  | named hnamed =>
    obtain ⟨core, hcore, hname⟩ := hnamed
    exact ⟨core, hcore, .inl hname⟩
  | kept hkept hleft =>
    obtain ⟨core, hcore, hname⟩ := h.titled entry hkept
    obtain ⟨core', hcore', hsame | ⟨title, hrenames, hname'⟩⟩ := hleft core hcore
    · rw [← hsame] at hname
      exact Titled.mono ⟨core', hcore', hname⟩ (List.subset_cons_self _ _)
    · exact ⟨core', hcore', .inr ⟨call, List.mem_cons_self, title, hrenames, hname'⟩⟩

theorem Trace.named {s₀ s : Session} {calls : List Call}
    (h : Trace Action.Builtin [] s₀ calls s) (h₀ : s₀.Named []) : s.Named calls := by
  induction h with
  | nil => exact h₀
  | aside _ haside ih =>
    refine ⟨haside.classes.trans ih.classes, ?_⟩
    unfold Titled
    rw [haside.bag, haside.graph]
    exact ih.titled
  | call _ hfollows ih => exact Named.call (Actions.labelsBag_of_follows hfollows) ih

end Session

/-- The call is to attach the appender that is kept under the name. -/
inductive Call.Refers : Call → String → Ref → Prop where
  | mk {a : Action} {element name : String} {attributes : Attributes} {s : Session} {r : Ref} :
    a.begin = Actions.beginAppenderRef →
    Phase.requiredAttribute element attributes "ref" s = .ok name s → s.appender? name = some r →
    Refers (.begin a element attributes s) name r

/-- A call that refers to a name attaches the appender of that name to the object on top of the
stack, or nothing. -/
theorem Call.Refers.attached {call : Call} {name : String} {r : Ref} (h : call.Refers name r) :
    call.left.appenderBag = call.session.appenderBag ∧ (call.left.graph = call.session.graph ∨
      ∃ target, call.session.top? = some target ∧
        call.session.graph.Attached target r call.left.graph) := by
  obtain @⟨a, element, _, attributes, s, _, ha, hname, hr⟩ := h
  have hleft : (Call.begin a element attributes s).left =
      Phase.left (Actions.beginAppenderRef element attributes s) := by
    rw [← ha]
    rfl
  have spec := Actions.beginAppenderRef_yields element attributes s
  rw [hleft]
  cases hb : Actions.beginAppenderRef element attributes s with
  | error signal s' =>
    obtain ⟨e, -, rfl⟩ := spec.of_error hb
    exact ⟨rfl, .inl rfl⟩
  | ok data s' =>
    obtain ⟨-, target, c, title, appender, graph, ds, htop, -, -, htitle, hr', hattached, rfl⟩ :=
      spec.of_ok hb
    rw [hname] at htitle
    cases htitle
    rw [hr] at hr'
    cases hr'
    exact ⟨rfl, .inr ⟨target, htop, hattached⟩⟩

namespace Configurator

/-- An appender has the name it is kept under, unless it was renamed. Take any session with the
built-in classes. In each of its states, what is kept under a name is an appender that has this
name, or one that a call gave it. So an appender that is referred to has the name that it is
referred to by when it is attached, or one that a call gave it; and nothing else is attached. -/
theorem bag_named (context : Ref) (options : SessionOptions) (environment : Environment) (g : Graph)
    (source : String) :
    let c : Configurator := { context, options, environment }
    (∀ s ∈ c.course g source, ∀ entry ∈ s.appenderBag, s.graph.HasKind .appender entry.2 ∧
      (s.graph.title? entry.2 = some entry.1 ∨ ∃ call ∈ c.calls g source, ∃ title,
        call.Renames entry.2 title ∧ s.graph.title? entry.2 = some title)) ∧
    ∀ call ∈ c.calls g source, ∀ name r, call.Refers name r →
      (call.left.graph.title? r = some name ∨ ∃ earlier ∈ c.calls g source, ∃ title,
        earlier.Renames r title ∧ call.left.graph.title? r = some title) ∧
      (call.left.graph = call.session.graph ∨ ∃ target, call.session.top? = some target ∧
        call.session.graph.Attached target r call.left.graph) := by
  intro c
  have hstart : (c.session g).Named [] := by
    obtain ⟨properties, hsession⟩ := c.session_eq g
    rw [hsession]
    exact ⟨rfl, nofun⟩
  have titled : ∀ {calls : List Call} {s : Session} {name : String} {r : Ref},
      s.Titled calls name r → calls ⊆ c.calls g source → s.graph.HasKind .appender r ∧
        (s.graph.title? r = some name ∨ ∃ call ∈ c.calls g source, ∃ title,
          call.Renames r title ∧ s.graph.title? r = some title) := by
    intro calls s name r htitled hcalls
    obtain ⟨core, hcore, hname⟩ := htitled.mono hcalls
    rw [Graph.title?_of_core? hcore]
    obtain ⟨component, hcomponent, hcore⟩ := Option.bind_eq_some_iff.1 hcore
    exact ⟨⟨component, hcomponent, Component.isKind_of_core? hcore⟩, hname⟩
  have hacts := c.acts_builtin rfl g
  refine ⟨fun s hs entry hentry => ?_, fun call hcall name r hrefers => ?_⟩
  · obtain ⟨calls, hcalls, htrace⟩ :=
      c.course_traces Action.ofEveryInstance_builtin hacts source s hs
    exact titled ((htrace.named hstart).titled entry hentry) hcalls.subset
  · obtain ⟨earlier, hcalls, htrace, hfollows⟩ :=
      c.calls_traces Action.ofEveryInstance_builtin hacts source call hcall
    obtain ⟨hbag, hattached⟩ := hrefers.attached
    have hkept : (name, r) ∈ call.session.appenderBag := by
      obtain ⟨-, -, hr⟩ := hrefers
      exact Entries.mem_of_find? hr
    have hafter := (htrace.call hfollows).named hstart
    exact ⟨(titled (hafter.titled (name, r) (by rw [hbag]; exact hkept)) hcalls.subset).2,
      hattached⟩

/-- A parameter gives the appender another name than it is kept under. The root logger refers to
it by the first name, and gets an appender of the other. -/
theorem bag_renamed :
    let g := (Graph.addContext {} "test").1
    let c : Configurator := { context := (Graph.addContext {} "test").2 }
    let source := "<configuration><appender name=\"A\" class=\"ConsoleAppender\">" ++
      "<param name=\"name\" value=\"B\"/></appender>" ++
      "<root><appender-ref ref=\"A\"/></root></configuration>"
    c.run g source ∈ c.course g source ∧
    (∃ entry ∈ (c.run g source).appenderBag, entry.1 = "A" ∧
      (c.run g source).graph.title? entry.2 = some "B" ∧
      ∃ r l, (c.run g source).graph.logger? r = some l ∧ l.isRoot = true ∧
        l.appenders = [entry.2]) ∧
    ¬ ∀ s ∈ c.course g source, ∀ entry ∈ s.appenderBag,
      s.graph.HasKind .appender entry.2 ∧ s.graph.title? entry.2 = some entry.1 := by
  intro g c source
  have hlast : c.run g source ∈ c.course g source := List.mem_append_right _ List.mem_cons_self
  obtain ⟨hkept, htitle, hroot⟩ : ("A", (⟨2⟩ : Ref)) ∈ (c.run g source).appenderBag ∧
      (c.run g source).graph.title? ⟨2⟩ = some "B" ∧
      ∃ l, (c.run g source).graph.logger? ⟨0⟩ = some l ∧ l.isRoot = true ∧
        l.appenders = [⟨2⟩] := by decide +kernel
  refine ⟨hlast, ⟨_, hkept, rfl, htitle, ⟨0⟩, hroot⟩, fun h => ?_⟩
  have hnamed := (h _ hlast _ hkept).2
  rw [htitle] at hnamed
  exact absurd hnamed (by decide)

end Configurator
end LogConfig
