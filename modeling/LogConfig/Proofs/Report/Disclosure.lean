import LogConfig.Proofs.Effects.Actions
import LogConfig.Proofs.Report.Recording

/-
  Phases disclose what goes wrong in them. A phase only adds diagnostics, at the place reached;
  where it adds nothing of the weight of a warning, every activation that it called succeeded
  (`Session.Discloses`). It never asks to skip anything: what stops it is a failure, and that the
  interpreter records. All built-in actions are of this kind (`Actions.builtins_disclose`).
-/

namespace LogConfig

/-- Nothing of the weight of a warning was recorded. -/
def Session.Clean (s : Session) : Prop :=
  ∀ d ∈ s.diagnostics, d.severity.atLeast .warning = false

/-- The component is active after the call. -/
def Activation.Succeeded (x : Activation) : Prop := ∃ active, x.outcome? = some (.ok active)

/-- From the first session to the second diagnostics were only added, all at the place reached, and
if the second is clean then every activation called in between succeeded. -/
structure Session.Discloses (s s' : Session) : Prop where
  records : s.RecordsInPlace s'
  activations : s'.Clean → ∀ x ∈ s'.activations, x ∈ s.activations ∨ x.Succeeded

namespace Session

variable {s s' s'' : Session}

theorem Clean.of_prefix (h : s'.Clean) (hd : s.diagnostics <+: s'.diagnostics) : s.Clean :=
  fun d hmem => h d (hd.subset hmem)

theorem not_clean_record (s : Session) {d : Diagnostic}
    (hd : d.severity.atLeast .warning = true) : ¬ (s.record d).Clean := by
  intro h
  have hlast := h (d.atLocation s.location) (List.mem_append_right _ List.mem_cons_self)
  have hseverity : (d.atLocation s.location).severity = d.severity := by
    unfold Diagnostic.atLocation
    split
    · rfl
    · rfl
  rw [hseverity, hd] at hlast
  cases hlast

theorem Discloses.refl (s : Session) : s.Discloses s := ⟨.refl s, fun _ _ hx => .inl hx⟩

theorem Discloses.trans (h : s.Discloses s') (h' : s'.Discloses s'') : s.Discloses s'' := by
  refine ⟨h.records.trans h'.records, fun hclean x hx => ?_⟩
  rcases h'.activations hclean x hx with hx | hx
  · exact h.activations (hclean.of_prefix h'.records.starts) x hx
  · exact .inr hx

/-- A step that calls no activation discloses all there is by recording remarks only. -/
theorem discloses_of_reporting {remarks : List Remark} (hl : s'.location = s.location)
    (hd : s'.diagnostics = (s.reporting remarks).diagnostics)
    (ha : s'.activations = s.activations) : s.Discloses s' :=
  ⟨recordsInPlace_of_reporting hl hd, fun _ x hx => .inl (by rwa [ha] at hx)⟩

/-- A step that neither calls an activation nor records anything. -/
theorem discloses_of_quiet (hl : s'.location = s.location) (hd : s'.diagnostics = s.diagnostics)
    (ha : s'.activations = s.activations) : s.Discloses s' :=
  ⟨recordsInPlace_of_eq hl hd, fun _ x hx => .inl (by rwa [ha] at hx)⟩

theorem discloses_record (s : Session) {d : Diagnostic} (hd : d.location = none) :
    s.Discloses (s.record d) :=
  ⟨recordsInPlace_record s hd, fun _ _ hx => .inl hx⟩

/-- The activation of a component is disclosed: a refusal is recorded as an error. -/
theorem discloses_activated (s : Session) (r : Ref) : s.Discloses (s.activated r) := by
  have called : ∀ {outcome}, (s.graph.get? r).bind Component.activate? = some outcome →
      (⟨r, s.graph⟩ : Activation).outcome? = some outcome := fun h => h
  unfold activated
  split
  · next active hactive =>
    refine ⟨recordsInPlace_of_eq rfl rfl, fun _ x hx => ?_⟩
    rcases List.mem_cons.1 hx with rfl | hx
    · exact .inr ⟨active, called hactive⟩
    · exact .inl hx
  · have noted : s.RecordsInPlace (s.noteActivation r) := recordsInPlace_of_eq rfl rfl
    exact ⟨noted.trans (recordsInPlace_record _ rfl),
      fun hclean => absurd hclean (not_clean_record _ rfl)⟩
  · exact .refl s

theorem Popped.discloses {r : Ref} (h : s.Popped r s') : s.Discloses s' := by
  cases h with
  | taken _ => exact discloses_of_quiet rfl rfl rfl
  | left _ => exact discloses_record s rfl

theorem Delivered.discloses {child : Ref} {parent? : Option Ref}
    (h : s.Delivered child parent? s') : s.Discloses s' := by
  refine (s.discloses_activated child).trans ?_
  cases h with
  | left _ => exact discloses_record _ rfl
  | attached _ _ _ => exact discloses_of_quiet rfl rfl rfl

end Session

/-- The phases of an action disclose what goes wrong in them, whatever they are called with. -/
structure Action.Discloses (a : Action) : Prop where
  begin : ∀ name attributes s,
    (a.begin name attributes).Yields s (fun _ s' => s.Discloses s') fun _ s' => s.Discloses s'
  body : ∀ name text data s,
    Phase.Comes (fun _ s' => s.Discloses s') (fun _ s' => s.Discloses s')
      (a.body name text data s).1
  finish : ∀ name data s,
    (a.finish name data).Yields s (fun _ s' => s.Discloses s') fun _ s' => s.Discloses s'

theorem Action.Discloses.instance {a : Action} (h : a.Discloses) (n : Nat) :
    { a with instanceId := n }.Discloses := ⟨h.begin, h.body, h.finish⟩

theorem Action.Discloses.recordsInPlace {a : Action} (h : a.Discloses) : a.RecordsInPlace where
  begin name attributes s :=
    (h.begin name attributes s).left (fun _ _ hs' => hs'.records) fun _ _ hs' => hs'.records
  body name text data s :=
    (h.body name text data s).left (fun _ _ hs' => hs'.records) fun _ _ hs' => hs'.records
  finish name data s :=
    (h.finish name data s).left (fun _ _ hs' => hs'.records) fun _ _ hs' => hs'.records

namespace Actions

open Phase

/-- What a phase does where it discloses what goes wrong in it. -/
abbrev Disclosing {α : Type} (x : Phase α) (s : Session) : Prop :=
  x.Yields s (fun _ s' => s.Discloses s') fun _ s' => s.Discloses s'

theorem discloses_of_eq {s s' : Session} (h : s' = s) : s.Discloses s' := by
  rw [h]
  exact .refl s

theorem disclosing_pure {α : Type} (a : α) (s : Session) : Disclosing (pure a) s :=
  yields_pure (.refl s)

theorem disclosing_info (message : String) (s : Session) : Disclosing (info message) s :=
  yields_modify (s.discloses_record rfl)

/-- An action that only begins. -/
theorem discloses_of_begin {a : Action} (hbody : a.body = fun _ _ data s => (.ok () s, data))
    (hfinish : a.finish = fun _ _ => pure ())
    (h : ∀ name attributes s, Disclosing (a.begin name attributes) s) : a.Discloses where
  begin := h
  body name text data s := by
    rw [hbody]
    exact .ok (.refl s)
  finish name data s := by
    rw [hfinish]
    exact disclosing_pure () s

/-! ### Context -/

theorem configuration_discloses : configuration.Discloses where
  begin name attributes s := by
    refine (beginConfiguration_yields name attributes s).mono ?_ fun _ _ => discloses_of_eq
    rintro data s' ⟨-, debug, ds, rfl⟩
    exact Session.discloses_of_reporting rfl rfl rfl
  body _ _ _ s := .ok (.refl s)
  finish _ _ s := disclosing_info _ s

theorem contextName_discloses : contextName.Discloses where
  begin _ _ s := disclosing_pure none s
  body name text data s := by
    refine Comes.mono (nameContext_yields name s text data) ?_ fun _ _ => discloses_of_eq
    rintro _ s' ⟨place, c, title, renamed, ds, -, -, -, rfl⟩
    exact Session.discloses_of_reporting rfl rfl rfl
  finish _ _ s := disclosing_pure () s

theorem conversionRule_discloses : conversionRule.Discloses := by
  refine discloses_of_begin rfl rfl fun name attributes s => ?_
  refine (beginConversionRule_yields name attributes s).mono ?_ fun _ _ => discloses_of_eq
  rintro data s' ⟨-, place, c, word, converter, ds, -, rfl⟩
  exact Session.discloses_of_reporting rfl rfl rfl

theorem definingAll_discloses (scope : PropertyScope) (entries : List (String × String))
    (s : Session) : s.Discloses (definingAll scope s entries) := by
  obtain ⟨graph, properties, hdefined⟩ := exists_definingAll_eq s scope entries
  rw [hdefined]
  exact Session.discloses_of_quiet rfl rfl rfl

theorem property_discloses : property.Discloses := by
  refine discloses_of_begin rfl rfl fun name attributes s => ?_
  refine (beginProperty_yields name attributes s).mono ?_ ?_
  · rintro data s' ⟨-, scope, entries, ds, rfl⟩
    exact (definingAll_discloses scope entries s).trans
      (Session.discloses_of_reporting rfl rfl rfl)
  · rintro e s' ⟨ds, rfl⟩
    exact Session.discloses_of_reporting rfl rfl rfl

theorem newRule_discloses : newRule.Discloses := by
  refine discloses_of_begin rfl rfl fun name attributes s => ?_
  refine (beginNewRule_yields name attributes s).mono ?_ fun _ _ => discloses_of_eq
  rintro data s' ⟨-, pattern, actionClass, ds, rfl⟩
  exact Session.discloses_of_reporting rfl rfl rfl

/-! ### Loggers -/

theorem finishPushed_discloses (what name : String) (data : Option ActionData) (s : Session) :
    Disclosing (finishPushed what name data) s := by
  unfold finishPushed
  split
  · next r => exact (finishPushed_yields name s what r).mono (fun _ _ h => h.discloses) nofun
  · exact disclosing_pure () s

theorem logger_discloses : logger.Discloses where
  begin name attributes s := by
    refine (beginLogger_yields name attributes s).mono ?_ ?_
    · rintro data s' ⟨title, declared, r, leveled, graph, ds, -, -, -, -, rfl⟩
      exact Session.discloses_of_reporting rfl rfl rfl
    · rintro e s' (⟨ds, rfl⟩ | ⟨title, declared, r, leveled, ds, -, -, rfl, -⟩)
      · exact Session.discloses_of_reporting rfl rfl rfl
      · exact Session.discloses_of_reporting rfl rfl rfl
  body _ _ _ s := .ok (.refl s)
  finish name data s := finishPushed_discloses _ name data s

theorem rootLogger_discloses : rootLogger.Discloses where
  begin name attributes s := by
    refine (beginRoot_yields name attributes s).mono ?_ fun _ _ => discloses_of_eq
    rintro data s' ⟨place, c, graph, ds, -, -, -, rfl⟩
    exact Session.discloses_of_reporting rfl rfl rfl
  body _ _ _ s := .ok (.refl s)
  finish name data s := finishPushed_discloses _ name data s

theorem level_discloses : level.Discloses := by
  refine discloses_of_begin rfl rfl fun name attributes s => ?_
  refine (beginLevel_yields name attributes s).mono ?_ fun _ _ => discloses_of_eq
  rintro data s' ⟨-, r, graph, ds, -, -, rfl⟩
  exact Session.discloses_of_reporting rfl rfl rfl

/-! ### Appenders -/

theorem appender_discloses : appender.Discloses where
  begin name attributes s := by
    refine (beginAppender_yields name attributes s).mono ?_ ?_
    · rintro data s' ⟨className, c, ds, -, -, rfl | ⟨title, named, -, rfl⟩⟩
      · exact Session.discloses_of_reporting rfl rfl rfl
      · exact Session.discloses_of_reporting rfl rfl rfl
    · rintro e s' (rfl | ⟨className, c, ds, -, rfl⟩)
      · exact .refl _
      · exact Session.discloses_of_reporting rfl rfl rfl
  body _ _ _ s := .ok (.refl s)
  finish name data s := by
    show Disclosing (finishAppender name data) s
    unfold finishAppender
    split
    · next r =>
      exact (finishAppender_yields name s r).mono
        (fun _ _ h => (s.discloses_activated r).trans h.discloses) nofun
    · exact disclosing_pure () s

theorem appenderRef_discloses : appenderRef.Discloses := by
  refine discloses_of_begin rfl rfl fun name attributes s => ?_
  refine (beginAppenderRef_yields name attributes s).mono ?_ fun _ _ => discloses_of_eq
  rintro data s' ⟨-, target, c, title, appender, graph, ds, -, -, -, -, -, -, rfl⟩
  exact Session.discloses_of_reporting rfl rfl rfl

theorem activated_pop_discloses {s s' : Session} {r : Ref} {P : Prop}
    (h : P ∧ s' = (s.activated r).pop) : s.Discloses s' := by
  obtain ⟨-, rfl⟩ := h
  exact (s.discloses_activated r).trans
    (Session.discloses_of_quiet rfl rfl rfl)

theorem layout_discloses : layout.Discloses where
  begin name attributes s := by
    refine (beginLayout_yields name attributes s).mono ?_ fun _ _ => discloses_of_eq
    rintro data s' ⟨className, c, -, -, rfl⟩
    exact Session.discloses_of_quiet rfl rfl rfl
  body _ _ _ s := .ok (.refl s)
  finish name data s := by
    show Disclosing (finishLayout name data) s
    unfold finishLayout
    split
    · next r =>
      exact (finishLayout_yields name s r).mono (fun _ _ h => h.discloses)
        fun _ _ => activated_pop_discloses
    · exact disclosing_pure () s

/-! ### Nested elements -/

theorem param_discloses : param.Discloses := by
  refine discloses_of_begin rfl rfl fun name attributes s => ?_
  refine (beginParam_yields name attributes s).mono ?_ fun _ _ => discloses_of_eq
  rintro data s' ⟨-, ⟨ds, rfl⟩ | ⟨target, c, c', title, text, -, -, -, rfl⟩⟩
  · exact Session.discloses_of_reporting rfl rfl rfl
  · exact Session.discloses_of_quiet rfl rfl rfl

theorem nestedComponent_discloses : nestedComponent.Discloses where
  begin name attributes s := by
    refine (beginNestedComponent_yields name attributes s).mono ?_ fun _ _ => discloses_of_eq
    rintro data s' ⟨parent, c, kind, className, child, -, -, -, -, -, rfl⟩
    exact Session.discloses_of_quiet rfl rfl rfl
  body _ _ _ s := .ok (.refl s)
  finish name data s := by
    show Disclosing (finishNestedComponent name data) s
    unfold finishNestedComponent
    split
    · next parent aggregation child =>
      exact (finishNestedComponent_yields name s parent child aggregation).mono
        (fun _ _ h => h.discloses) fun _ _ => activated_pop_discloses
    · exact disclosing_pure () s

theorem nestedProperty_discloses : nestedProperty.Discloses where
  begin name attributes s := by
    refine (nestedProperty_begin_yields name attributes s).mono ?_ fun _ _ => discloses_of_eq
    rintro data s' ⟨parent, -, -, rfl⟩
    exact .refl _
  body name text data s := by
    show Disclosing (setFromBody name text data) s
    unfold setFromBody
    split
    · next parent =>
      refine (setFromBody_yields name s text parent).mono ?_ fun _ _ => discloses_of_eq
      rintro _ s' (⟨ds, rfl⟩ | ⟨c, c', value, -, -, rfl⟩)
      · exact Session.discloses_of_reporting rfl rfl rfl
      · exact Session.discloses_of_quiet rfl rfl rfl
    · exact disclosing_pure () s
  finish _ _ s := disclosing_pure () s

theorem builtins_disclose : ∀ entry ∈ builtins, entry.1.Discloses := by
  unfold builtins
  simp only [List.forall_mem_cons, List.not_mem_nil, false_imp_iff, implies_true, and_true]
  exact ⟨configuration_discloses, contextName_discloses, property_discloses,
    conversionRule_discloses, logger_discloses, rootLogger_discloses, level_discloses,
    appender_discloses, appenderRef_discloses, layout_discloses, param_discloses,
    newRule_discloses, nestedComponent_discloses, nestedProperty_discloses⟩

/-- So they all record in place. -/
theorem builtins_recordInPlace : ∀ entry ∈ builtins, entry.1.RecordsInPlace :=
  fun entry hentry => (builtins_disclose entry hentry).recordsInPlace

end Actions
end LogConfig
