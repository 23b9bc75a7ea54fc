import LogConfig.Proofs.Effects.Actions

/-
  What a begin phase that fails leaves behind. Every built-in action reads all its attributes
  before it changes anything but the diagnostics, save two: the action for appenders adds the
  appender to the graph before it reads its name, where nothing refers to the appender yet; and
  the action for loggers declares the logger before it reads its level and its additivity. So a
  begin phase that fails leaves the session intact, unless one of these two attributes of a logger
  cannot be expanded: then the logger stays in the context, and a level already set stays with it.
-/

namespace LogConfig

/-- In the second session at most diagnostics were added to the first, and components that nothing
in it refers to: all else is the same, and so is every component. -/
structure Session.Intact (s s' : Session) : Prop where
  rest : ∃ graph ds, s' = { s.reporting ds with graph }
  components : ∀ r c, s.graph.get? r = some c → s'.graph.get? r = some c

namespace Graph

theorem context?_put_logger {g : Graph} {r : Ref} {l l' : Logger} (hl : g.logger? r = some l)
    (place : Ref) : (g.put r (.logger l')).context? place = g.context? place := by
  have hr := get?_of_logger? hl
  unfold context?
  by_cases hp : place = r
  · rw [hp, get?_put_self hr, hr]
  · rw [get?_put_of_ne hp]

theorem Adjusted.context?_eq {g g' : Graph} {r : Ref} (h : g.Adjusted r g') (place : Ref) :
    g'.context? place = g.context? place := by
  cases h with
  | kept => rfl
  | level hl _ => exact context?_put_logger hl place
  | additive hl => exact context?_put_logger hl place

theorem context?_addLogger {g : Graph} {place : Ref} {c : LoggerContext}
    (h : g.context? place = some c) (name : String) (l : Logger) :
    (g.addLogger place c name l).1.context? place =
      some { c with loggers := Entries.insert name g.next c.loggers } := by
  have hadded := get?_add_of_some (get?_of_context? h) (.logger l)
  unfold context? addLogger
  rw [get?_put_self hadded]

end Graph

namespace Session

theorem intact_reporting (s : Session) (ds : List Remark) : s.Intact (s.reporting ds) :=
  ⟨⟨s.graph, ds, rfl⟩, fun _ _ h => h⟩

theorem intact_of_eq {s s' : Session} (h : s' = s) : s.Intact s' := by
  rw [h]
  have hnone := s.intact_reporting []
  rwa [s.reporting_nil] at hnone

theorem intact_add (s : Session) (c : Component) (ds : List Remark) :
    s.Intact { s.reporting ds with graph := s.graph.add c } :=
  ⟨⟨_, ds, rfl⟩, fun _ _ h => Graph.get?_add_of_some h c⟩

/-- The context of an intact session is the same, with all it holds. -/
theorem Intact.context?_eq {s s' : Session} (h : s.Intact s') {place : Ref} {c : LoggerContext}
    (hc : s.context? = some (place, c)) : s'.context? = some (place, c) := by
  obtain ⟨hlast, hplace⟩ := context?_eq_some hc
  have hcell := h.components place _ (Graph.get?_of_context? hplace)
  obtain ⟨graph, ds, rfl⟩ := h.rest
  have hsame : graph.context? place = some c := by
    unfold Graph.context?
    rw [show graph.get? place = _ from hcell]
  show s.stack.getLast?.bind _ = _
  rw [hlast, Option.bind_some, hsame, Option.map_some]

/-! ### What references mean after a logger is declared -/

/-- Once a logger is declared, the context is the one of before, with the same properties. -/
theorem HasLogger.context?_eq {s : Session} {name : String} {graph : Graph} {r : Ref}
    (h : s.HasLogger name graph r) :
    ∃ place c c', s.context? = some (place, c) ∧ graph.context? place = some c' ∧
      c'.properties = c.properties := by
  cases h with
  | @known place _ c hcontext _ =>
    exact ⟨place, c, c, hcontext, (context?_eq_some hcontext).2, rfl⟩
  | @plain place c hcontext _ =>
    exact ⟨place, c, _, hcontext, Graph.context?_addLogger (context?_eq_some hcontext).2 _ _, rfl⟩
  | @ofClass place c _ _ hcontext _ _ =>
    exact ⟨place, c, _, hcontext, Graph.context?_addLogger (context?_eq_some hcontext).2 _ _, rfl⟩

/-- Once a logger is declared and its settings are changed, references mean what they meant. -/
theorem HasLogger.definitions_eq {s : Session} {name : String} {declared leveled : Graph} {r : Ref}
    (h : s.HasLogger name declared r) (hl : declared.Adjusted r leveled) (ds : List Remark) :
    ({ s.reporting ds with graph := leveled } : Session).definitions = s.definitions := by
  obtain ⟨place, c, c', hcontext, hdeclared, hproperties⟩ := h.context?_eq
  have hlast := (context?_eq_some hcontext).1
  have hafter : ({ s.reporting ds with graph := leveled } : Session).context? =
      some (place, c') := by
    show s.stack.getLast?.bind _ = _
    rw [hlast, Option.bind_some, hl.context?_eq, hdeclared, Option.map_some]
  unfold definitions
  rw [hafter, hcontext]
  simp only [Option.map_some, Option.getD_some, hproperties]
  rfl

end Session

namespace Phase

theorem substitute_run_ok {s : Session} {text expanded : String}
    (h : s.substitute text = .ok expanded) : substitute text s = .ok expanded s := by
  unfold substitute
  rw [get_bind_run, h]
  rfl

theorem substitute_run_error {s : Session} {text : String} {e : SubstitutionError}
    (h : s.substitute text = .error e) :
    substitute text s = .error (.failed (.substitution e)) s := by
  unfold substitute
  rw [get_bind_run, h]
  rfl

/-- Whether an attribute can be read depends on what references mean only. -/
theorem attribute?_error_of_definitions {s t : Session} (h : t.definitions = s.definitions)
    {attributes : Attributes} {name : String} {e : ConfigError}
    (ht : attribute? attributes name t = .error (.failed e) t) :
    attribute? attributes name s = .error (.failed e) s := by
  have same : ∀ raw, s.substitute raw = t.substitute raw := by
    intro raw
    unfold Session.substitute Session.lookup
    rw [h]
  unfold attribute? at ht ⊢
  cases hfind : (Entries.find? name attributes).map Text.trim with
  | none =>
    rw [hfind] at ht
    cases ht
  | some raw =>
    rw [hfind] at ht
    dsimp only at ht ⊢
    split at ht
    · cases ht
    · next hraw =>
      rw [if_neg hraw]
      cases hread : t.substitute raw with
      | ok text =>
        rw [bind_run_ok (substitute_run_ok hread)] at ht
        cases ht
      | error e =>
        rw [bind_run_error (substitute_run_error hread)] at ht
        cases ht
        exact bind_run_error (substitute_run_error ((same raw).trans hread))

end Phase

namespace Actions

open Phase

/-- The value of an attribute cannot be expanded. -/
def Unreadable (s : Session) (attributes : Attributes) (name : String) : Prop :=
  ∃ e, attribute? attributes name s = .error (.failed e) s

/-- What a begin phase of the action may leave behind when it fails in the session `s`. -/
inductive Leaves (a : Action) (attributes : Attributes) (s : Session) : Session → Prop where
  | intact {s' : Session} : s.Intact s' → Leaves a attributes s s'
  | declared {name : String} {declared leveled : Graph} {r : Ref} {ds : List Remark} :
    a.name = "LoggerAction" →
    Unreadable s attributes "level" ∨ Unreadable s attributes "additivity" →
    s.HasLogger name declared r → declared.Adjusted r leveled →
    Leaves a attributes s { s.reporting ds with graph := leveled }

/-- Whatever a failing begin phase of the action leaves behind is allowed by `Leaves`. -/
def FailsLeaving (a : Action) : Prop :=
  ∀ element attributes s, (a.begin element attributes).Yields s (fun _ _ => True)
    fun _ s' => Leaves a attributes s s'

theorem failsLeaving_of_unchanged {a : Action}
    {Q : String → Attributes → Session → Option ActionData → Session → Prop}
    (h : ∀ element attributes s,
      (a.begin element attributes).Yields s (Q element attributes s) fun _ s' => s' = s) :
    FailsLeaving a := fun element attributes s =>
  (h element attributes s).mono (fun _ _ _ => trivial) fun _ _ he =>
    .intact (Session.intact_of_eq he)

theorem property_failsLeaving : FailsLeaving property := fun element attributes s =>
  (beginProperty_yields element attributes s).mono (fun _ _ _ => trivial) fun _ s' he => by
    obtain ⟨ds, rfl⟩ := he
    exact .intact (s.intact_reporting ds)

theorem appender_failsLeaving : FailsLeaving appender := fun element attributes s =>
  (beginAppender_yields element attributes s).mono (fun _ _ _ => trivial) fun _ s' he => by
    rcases he with he | ⟨_, c, ds, -, rfl⟩
    · exact .intact (Session.intact_of_eq he)
    · exact .intact (s.intact_add c ds)

theorem logger_failsLeaving : FailsLeaving logger := fun element attributes s =>
  (beginLogger_yields element attributes s).mono (fun _ _ _ => trivial) fun e s' he => by
    rcases he with ⟨ds, rfl⟩ | ⟨name, declared, r, leveled, ds, hlogger, hleveled, rfl, hread⟩
    · exact .intact (s.intact_reporting ds)
    · have hdefinitions := hlogger.definitions_eq hleveled ds
      refine .declared rfl ?_ hlogger hleveled
      rcases hread with ⟨-, hread⟩ | hread
      · exact .inl ⟨e, attribute?_error_of_definitions hdefinitions hread⟩
      · exact .inr ⟨e, attribute?_error_of_definitions hdefinitions hread⟩

theorem contextName_begin_yields (element : String) (attributes : Attributes) (s : Session) :
    (contextName.begin element attributes).Yields s (fun data s' => data = none ∧ s' = s)
      fun _ s' => s' = s := yields_pure ⟨rfl, rfl⟩

theorem builtins_failsLeaving : ∀ entry ∈ builtins, FailsLeaving entry.1 := by
  unfold builtins
  simp only [List.forall_mem_cons, List.not_mem_nil, false_imp_iff, implies_true, and_true]
  exact ⟨failsLeaving_of_unchanged beginConfiguration_yields,
    failsLeaving_of_unchanged contextName_begin_yields, property_failsLeaving,
    failsLeaving_of_unchanged beginConversionRule_yields, logger_failsLeaving,
    failsLeaving_of_unchanged beginRoot_yields, failsLeaving_of_unchanged beginLevel_yields,
    appender_failsLeaving, failsLeaving_of_unchanged beginAppenderRef_yields,
    failsLeaving_of_unchanged beginLayout_yields, failsLeaving_of_unchanged beginParam_yields,
    failsLeaving_of_unchanged beginNewRule_yields,
    failsLeaving_of_unchanged beginNestedComponent_yields,
    failsLeaving_of_unchanged nestedProperty_begin_yields⟩

/-- A begin phase that fails does so with an error. It leaves the session intact, except where it
declares a logger whose level or additivity cannot be expanded: that logger stays declared, with
the level it may have been given before its additivity was read. -/
theorem failed_begin_intact {entry : Action × Option String} (hentry : entry ∈ builtins)
    {element : String} {attributes : Attributes} {s s' : Session} {signal : Signal}
    (h : entry.1.begin element attributes s = .error signal s') :
    (∃ e, signal = .failed e) ∧ Leaves entry.1 attributes s s' ∧
      ((entry.1.name = "LoggerAction" →
        ¬ Unreadable s attributes "level" ∧ ¬ Unreadable s attributes "additivity") →
          s.Intact s') := by
  obtain ⟨e, rfl, hleaves⟩ := (builtins_failsLeaving entry hentry element attributes s).of_error h
  refine ⟨⟨e, rfl⟩, hleaves, fun hreadable => ?_⟩
  cases hleaves with
  | intact hintact => exact hintact
  | declared hname hunread _ _ =>
    obtain ⟨hlevel, hadditivity⟩ := hreadable hname
    rcases hunread with hunread | hunread
    · exact absurd hunread hlevel
    · exact absurd hunread hadditivity

/-- The name of this appender cannot be expanded; by then the appender is in the graph. -/
theorem failed_begin_intact_appender :
    let s : Session :=
      { graph := (Graph.addContext {} "test").1, stack := [(Graph.addContext {} "test").2]
        classes := ClassRegistry.builtins }
    let attributes : Attributes := [("class", "ConsoleAppender"), ("name", "$\x7ba")]
    (appender, some corePackage) ∈ builtins ∧
      ∃ signal s', appender.begin "appender" attributes s = .error signal s' ∧
        s'.graph.next ≠ s.graph.next ∧ s.Intact s' := by
  intro s attributes
  have hfails : (match appender.begin "appender" attributes s with
      | .error _ s' => decide (s'.graph.next ≠ s.graph.next)
      | .ok _ _ => false) = true := by decide +kernel
  have hentry : (appender, some corePackage) ∈ builtins := by simp [builtins]
  refine ⟨hentry, ?_⟩
  cases h : appender.begin "appender" attributes s with
  | ok data s' =>
    rw [h] at hfails
    cases hfails
  | error signal s' =>
    rw [h] at hfails
    obtain ⟨-, -, hintact⟩ := failed_begin_intact hentry h
    exact ⟨signal, s', rfl, of_decide_eq_true hfails,
      hintact fun hname => absurd hname (by decide)⟩

/-- The level of this logger cannot be expanded; by then the context has the logger. -/
theorem failed_begin_declares_logger :
    let s : Session :=
      { graph := (Graph.addContext {} "test").1, stack := [(Graph.addContext {} "test").2]
        classes := ClassRegistry.builtins }
    let attributes : Attributes := [("name", "x"), ("level", "$\x7ba")]
    ∃ signal s', logger.begin "logger" attributes s = .error signal s' ∧ ¬ s.Intact s' := by
  intro s attributes
  have hfails : (match logger.begin "logger" attributes s with
      | .error _ s' => s'.context?.map fun place => place.2.loggers.length
      | .ok _ _ => none) = some 1 := by decide +kernel
  have hbefore : s.context?.map (fun place => place.2.loggers.length) = some 0 := by decide +kernel
  cases h : logger.begin "logger" attributes s with
  | ok data s' =>
    rw [h] at hfails
    cases hfails
  | error signal s' =>
    rw [h] at hfails
    refine ⟨signal, s', rfl, fun hintact => ?_⟩
    obtain ⟨⟨place, c⟩, hcontext, hcount⟩ := Option.map_eq_some_iff.1 hbefore
    dsimp only at hfails
    rw [hintact.context?_eq hcontext, Option.map_some, hcount] at hfails
    cases hfails

end Actions
end LogConfig
