import LogConfig.Proofs.Effects.Actions
import LogConfig.Proofs.Lifecycle.Graph
import Mathlib.Logic.Relation

/-
  The few ways in which a session changes. Whatever a phase of a built-in action does comes down to
  single changes of the graph or of the appenders kept by name, each with what was checked before
  it (`Session.Alters`). A phase is a sequence of such changes (`Session.Becomes`), with any data
  and whether it succeeds or not (`Actions.builtins_confined`); so a property that every single
  change keeps is kept by every phase.
-/

namespace LogConfig

namespace LoggerContext

/-- A context that was named or whose properties and conversion rules were changed. -/
structure Revised (c c' : LoggerContext) : Prop where
  root : c'.root = c.root
  loggers : c'.loggers = c.loggers
  name : (c'.name = c.name ∧ c'.nameLocked = c.nameLocked) ∨ ∃ name, c.rename name = .ok c'

theorem revised_rename {c c' : LoggerContext} {name : String} (h : c.rename name = .ok c') :
    c.Revised c' := by
  have hkept : c'.root = c.root ∧ c'.loggers = c.loggers := by
    unfold rename at h
    split at h
    · cases h
    · cases h
      exact ⟨rfl, rfl⟩
  exact ⟨hkept.1, hkept.2, .inr ⟨name, h⟩⟩

end LoggerContext

namespace Session

/-- One change of a session, with what is known when it is made. Properties are set and appenders
kept by name only if `sets`, and children are attached only if `attaches`. -/
inductive AltersIf (sets attaches : Prop) (s : Session) : Session → Prop where
  /-- Anything but the graph and the appenders kept by name. -/
  | aside {s' : Session} : s'.graph = s.graph → s'.appenderBag = s.appenderBag →
    s'.classes = s.classes → AltersIf sets attaches s s'
  | created {className : String} {kind : ComponentKind} {c : Component} :
    s.classes.instanceOfKind? className kind = .ok c →
    AltersIf sets attaches s { s with graph := s.graph.add c }
  | kept (name : String) {r : Ref} {c : Component} : sets → s.graph.get? r = some c →
    c.isKind .appender = true → AltersIf sets attaches s (s.keepAppender name r)
  | set {r : Ref} {c c' : Component} {name text : String} : sets → s.graph.get? r = some c →
    c.setFromText name text = .ok c' →
    AltersIf sets attaches s { s with graph := s.graph.put r c' }
  | adjusted {r : Ref} {graph : Graph} : s.graph.Adjusted r graph →
    AltersIf sets attaches s { s with graph }
  | declared {name : String} {graph : Graph} {r : Ref} : s.HasLogger name graph r →
    AltersIf sets attaches s { s with graph }
  | revised {place : Ref} {c c' : LoggerContext} : s.context? = some (place, c) → c.Revised c' →
    AltersIf sets attaches s { s with graph := s.graph.put place (.context c') }
  | attached {parent child : Ref} {graph : Graph} : attaches →
    s.graph.Attached parent child graph → AltersIf sets attaches s { s with graph }
  | activated {r : Ref} {c active : Component} : s.graph.get? r = some c →
    c.activate? = some (.ok active) →
    AltersIf sets attaches s { s with graph := s.graph.put r active }

/-- One change of any kind. -/
abbrev Alters : Session → Session → Prop := AltersIf True True

/-- Any number of changes, one after the other. -/
abbrev BecomesIf (sets attaches : Prop) : Session → Session → Prop :=
  Relation.ReflTransGen (AltersIf sets attaches)

/-- Any number of changes of any kind. -/
abbrev Becomes : Session → Session → Prop := BecomesIf True True

variable {sets attaches : Prop} {s s' s'' : Session}

theorem becomes_of_eq (h : s' = s) : s.BecomesIf sets attaches s' := by
  rw [h]

/-- Further changes that concern neither the graph nor the appenders kept by name. -/
theorem BecomesIf.aside (h : s.BecomesIf sets attaches s') (hg : s''.graph = s'.graph)
    (hb : s''.appenderBag = s'.appenderBag) (hc : s''.classes = s'.classes) :
    s.BecomesIf sets attaches s'' :=
  h.tail (.aside hg hb hc)

theorem becomes_aside (hg : s'.graph = s.graph) (hb : s'.appenderBag = s.appenderBag)
    (hc : s'.classes = s.classes) : s.BecomesIf sets attaches s' := .single (.aside hg hb hc)

theorem becomes_reporting (s : Session) (ds : List Remark) :
    s.BecomesIf sets attaches (s.reporting ds) :=
  becomes_aside rfl rfl rfl

theorem becomes_activated (s : Session) (r : Ref) :
    s.BecomesIf sets attaches (s.activated r) := by
  unfold Session.activated
  split
  · next active h =>
    obtain ⟨c, hc, hactive⟩ := Option.bind_eq_some_iff.1 h
    exact BecomesIf.aside (.single (.activated hc hactive)) rfl rfl rfl
  · exact becomes_aside rfl rfl rfl
  · exact .refl

theorem Popped.becomes {r : Ref} (h : s.Popped r s') : s.BecomesIf sets attaches s' := by
  cases h with
  | taken _ => exact becomes_aside rfl rfl rfl
  | left _ => exact becomes_aside rfl rfl rfl

theorem Delivered.becomes {child : Ref} {parent? : Option Ref} (h : s.Delivered child parent? s') :
    s.BecomesIf sets True s' := by
  have hactive : s.BecomesIf sets True (s.activated child) := s.becomes_activated child
  cases h with
  | left _ => exact hactive.aside rfl rfl rfl
  | attached _ _ hattached =>
    exact BecomesIf.aside (hactive.tail (.attached trivial hattached)) rfl rfl rfl

theorem modifyContext_becomes (s : Session) {f : LoggerContext → LoggerContext}
    (hf : ∀ c : LoggerContext, c.Revised (f c)) :
    s.BecomesIf sets attaches (s.modifyContext f) := by
  unfold modifyContext
  cases hc : s.context? with
  | none => exact .refl
  | some place => exact .single (.revised hc (hf place.2))

end Session

/-! ### Phases -/

/-- Every phase of the action, given whatever data, makes changes of the known kinds only. -/
structure Action.ConfinedIf (sets attaches : Prop) (a : Action) : Prop where
  begin : ∀ name attributes (s : Session),
    s.BecomesIf sets attaches (Phase.left (a.begin name attributes s))
  body : ∀ name text data (s : Session),
    s.BecomesIf sets attaches (Phase.left (a.body name text data s).1)
  finish : ∀ name data (s : Session),
    s.BecomesIf sets attaches (Phase.left (a.finish name data s))

abbrev Action.Confined : Action → Prop := Action.ConfinedIf True True

theorem Action.ConfinedIf.instance {sets attaches : Prop} {a : Action}
    (h : a.ConfinedIf sets attaches) (n : Nat) :
    { a with instanceId := n }.ConfinedIf sets attaches := ⟨h.begin, h.body, h.finish⟩

namespace Actions

open Phase Session

variable {sets attaches : Prop}

/-- An action that only begins is confined when its begin phase is. -/
theorem confined_of_begin {name : String} {begin : String → Attributes → Phase (Option ActionData)}
    (h : ∀ element attributes (s : Session),
      s.BecomesIf sets attaches (left (begin element attributes s))) :
    Action.ConfinedIf sets attaches { name, begin } :=
  ⟨h, fun _ _ _ _ => .refl, fun _ _ _ => .refl⟩

theorem configuration_confined : configuration.ConfinedIf sets attaches := by
  refine ⟨fun element attributes s => ?_, fun _ _ _ _ => .refl, fun _ _ s => ?_⟩
  · refine (beginConfiguration_yields element attributes s).left (fun _ s' hs' => ?_)
      fun _ s' he => becomes_of_eq he
    obtain ⟨-, debug, ds, rfl⟩ := hs'
    exact becomes_aside rfl rfl rfl
  · exact becomes_reporting s [.info _]

theorem contextName_confined : contextName.ConfinedIf sets attaches := by
  refine ⟨fun _ _ _ => .refl, fun element text data s => ?_, fun _ _ _ => .refl⟩
  refine (nameContext_yields element s text data).left (fun _ s' hs' => ?_)
    fun _ s' he => becomes_of_eq he
  obtain ⟨place, c, name, renamed, ds, -, hc, hrename, rfl⟩ := hs'
  exact BecomesIf.aside (.single (.revised hc (LoggerContext.revised_rename hrename))) rfl rfl rfl

theorem conversionRule_confined : conversionRule.ConfinedIf sets attaches := by
  refine confined_of_begin fun element attributes s => ?_
  refine (beginConversionRule_yields element attributes s).left (fun _ s' hs' => ?_)
    fun _ s' he => becomes_of_eq he
  obtain ⟨-, place, c, word, converter, ds, hc, rfl⟩ := hs'
  have hrevised : c.Revised (c.putConversionRule word converter) := ⟨rfl, rfl, .inl ⟨rfl, rfl⟩⟩
  exact BecomesIf.aside (.single (.revised hc hrevised)) rfl rfl rfl

theorem definingAll_becomes (scope : PropertyScope) (s : Session)
    (entries : List (String × String)) :
    s.BecomesIf sets attaches (definingAll scope s entries) := by
  have defined : ∀ (s : Session) (key value : String),
      s.BecomesIf sets attaches (defineIn scope s key value) := by
    intro s key value
    have hlocal : s.BecomesIf sets attaches (s.defineProperty key value) := by
      unfold Session.defineProperty
      split
      · exact .refl
      · exact becomes_aside rfl rfl rfl
    unfold defineIn
    cases scope with
    | session => exact hlocal
    | context =>
      exact hlocal.trans (modifyContext_becomes _ fun c => ⟨rfl, rfl, .inl ⟨rfl, rfl⟩⟩)
  unfold definingAll
  induction entries generalizing s with
  | nil => exact .refl
  | cons entry rest ih =>
    rw [List.foldl_cons]
    exact (defined s entry.1 entry.2).trans (ih _)

theorem property_confined : property.ConfinedIf sets attaches := by
  refine confined_of_begin fun element attributes s => ?_
  refine (beginProperty_yields element attributes s).left (fun _ s' hs' => ?_) fun _ s' he => ?_
  · obtain ⟨-, scope, entries, ds, rfl⟩ := hs'
    exact (definingAll_becomes scope s entries).trans (becomes_reporting _ ds)
  · obtain ⟨ds, rfl⟩ := he
    exact becomes_reporting s ds

theorem newRule_confined : newRule.ConfinedIf sets attaches := by
  refine confined_of_begin fun element attributes s => ?_
  refine (beginNewRule_yields element attributes s).left (fun _ s' hs' => ?_)
    fun _ s' he => becomes_of_eq he
  obtain ⟨-, pattern, actionClass, ds, rfl⟩ := hs'
  exact becomes_aside rfl rfl rfl

theorem finishPushed_becomes (what element : String) (data : Option ActionData) (s : Session) :
    s.BecomesIf sets attaches (left (finishPushed what element data s)) := by
  unfold finishPushed
  split
  · next r =>
    exact (finishPushed_yields element s what r).left (fun _ _ h => h.becomes) fun _ _ h => h.elim
  · exact .refl

theorem logger_confined : logger.ConfinedIf sets attaches := by
  refine ⟨fun element attributes s => ?_, fun _ _ _ _ => .refl, finishPushed_becomes _⟩
  refine (beginLogger_yields element attributes s).left (fun _ s' hs' => ?_) fun _ s' he => ?_
  · obtain ⟨name, declared, r, leveled, graph, ds, hlogger, hlevel, hgraph, -, rfl⟩ := hs'
    have hdeclared : s.BecomesIf sets attaches { s with graph := declared } :=
      .single (.declared hlogger)
    have hleveled : s.BecomesIf sets attaches { s with graph := leveled } :=
      hdeclared.tail (.adjusted hlevel)
    have hset : s.BecomesIf sets attaches { s with graph } := hleveled.tail (.adjusted hgraph)
    exact hset.aside rfl rfl rfl
  · rcases he with ⟨ds, rfl⟩ | ⟨name, declared, r, leveled, ds, hlogger, hlevel, rfl, -⟩
    · exact becomes_reporting s ds
    · have hdeclared : s.BecomesIf sets attaches { s with graph := declared } :=
        .single (.declared hlogger)
      have hleveled : s.BecomesIf sets attaches { s with graph := leveled } :=
        hdeclared.tail (.adjusted hlevel)
      exact hleveled.aside rfl rfl rfl

theorem rootLogger_confined : rootLogger.ConfinedIf sets attaches := by
  refine ⟨fun element attributes s => ?_, fun _ _ _ _ => .refl, finishPushed_becomes _⟩
  refine (beginRoot_yields element attributes s).left (fun _ s' hs' => ?_)
    fun _ s' he => becomes_of_eq he
  obtain ⟨place, c, graph, ds, -, hgraph, -, rfl⟩ := hs'
  exact BecomesIf.aside (.single (.adjusted hgraph)) rfl rfl rfl

theorem level_confined : level.ConfinedIf sets attaches := by
  refine confined_of_begin fun element attributes s => ?_
  refine (beginLevel_yields element attributes s).left (fun _ s' hs' => ?_)
    fun _ s' he => becomes_of_eq he
  obtain ⟨-, r, graph, ds, -, hgraph, rfl⟩ := hs'
  exact BecomesIf.aside (.single (.adjusted hgraph)) rfl rfl rfl

theorem finishAppender_becomes (element : String) (data : Option ActionData) (s : Session) :
    s.BecomesIf sets attaches (left (finishAppender element data s)) := by
  unfold finishAppender
  split
  · next r =>
    exact (finishAppender_yields element s r).left
      (fun _ _ h => (s.becomes_activated r).trans h.becomes) fun _ _ h => h.elim
  · exact .refl

theorem appender_confined : appender.ConfinedIf True attaches := by
  refine ⟨fun element attributes s => ?_, fun _ _ _ _ => .refl, fun element data s => ?_⟩
  · refine (beginAppender_yields element attributes s).left (fun _ s' hs' => ?_) fun _ s' he => ?_
    · obtain ⟨className, c, ds, hc, -, hs'⟩ := hs'
      have hcreated : s.BecomesIf True attaches { s with graph := s.graph.add c } :=
        .single (.created hc)
      rcases hs' with rfl | ⟨name, named, hnamed, rfl⟩
      · exact hcreated.aside rfl rfl rfl
      · have hput := hcreated.tail (.set trivial (s.graph.get?_add_next c) hnamed)
        have hkind : named.isKind .appender = true := by
          rw [Component.isKind, (Component.alike_of_setFromText hnamed).kinds]
          exact ClassRegistry.isKind_of_instanceOfKind? hc
        have hget : ((s.graph.add c).put s.graph.next named).get? s.graph.next = some named :=
          Graph.get?_put_self (s.graph.get?_add_next c) named
        exact BecomesIf.aside (hput.tail (.kept name trivial hget hkind)) rfl rfl rfl
    · rcases he with rfl | ⟨className, c, ds, hc, rfl⟩
      · exact .refl
      · exact BecomesIf.aside (.single (.created hc)) rfl rfl rfl
  · exact finishAppender_becomes element data s

theorem appenderRef_confined : appenderRef.ConfinedIf sets True := by
  refine confined_of_begin fun element attributes s => ?_
  refine (beginAppenderRef_yields element attributes s).left (fun _ s' hs' => ?_)
    fun _ s' he => becomes_of_eq he
  obtain ⟨-, target, c, name, appender, graph, ds, -, -, -, -, -, hattached, rfl⟩ := hs'
  exact BecomesIf.aside (.single (.attached trivial hattached)) rfl rfl rfl

theorem layout_confined : layout.ConfinedIf sets True := by
  refine ⟨fun element attributes s => ?_, fun _ _ _ _ => .refl, fun element data s => ?_⟩
  · refine (beginLayout_yields element attributes s).left (fun _ s' hs' => ?_)
      fun _ s' he => becomes_of_eq he
    obtain ⟨className, c, hc, -, rfl⟩ := hs'
    exact BecomesIf.aside (.single (.created hc)) rfl rfl rfl
  · show s.BecomesIf sets True (left (finishLayout element data s))
    unfold finishLayout
    split
    · next child =>
      refine (finishLayout_yields element s child).left (fun _ _ h => h.becomes) fun _ s' he => ?_
      rw [he.2]
      exact (s.becomes_activated child).aside rfl rfl rfl
    · exact .refl

theorem param_confined : param.ConfinedIf True attaches := by
  refine confined_of_begin fun element attributes s => ?_
  refine (beginParam_yields element attributes s).left (fun _ s' hs' => ?_)
    fun _ s' he => becomes_of_eq he
  obtain ⟨-, ⟨ds, rfl⟩ | ⟨target, c, c', name, text, -, hc, hset, rfl⟩⟩ := hs'
  · exact becomes_reporting s ds
  · exact .single (.set trivial hc hset)

theorem nestedComponent_confined : nestedComponent.ConfinedIf sets True := by
  refine ⟨fun element attributes s => ?_, fun _ _ _ _ => .refl, fun element data s => ?_⟩
  · refine (beginNestedComponent_yields element attributes s).left (fun _ s' hs' => ?_)
      fun _ s' he => becomes_of_eq he
    obtain ⟨parent, c, kind, className, child, -, -, -, hchild, -, rfl⟩ := hs'
    exact BecomesIf.aside (.single (.created hchild)) rfl rfl rfl
  · show s.BecomesIf sets True (left (finishNestedComponent element data s))
    unfold finishNestedComponent
    split
    · next parent aggregation child =>
      refine (finishNestedComponent_yields element s parent child aggregation).left
        (fun _ _ h => h.becomes) fun _ s' he => ?_
      rw [he.2]
      exact (s.becomes_activated child).aside rfl rfl rfl
    · exact .refl

theorem nestedProperty_confined : nestedProperty.ConfinedIf True attaches := by
  refine ⟨fun element attributes s => ?_, fun element text data s => ?_, fun _ _ _ => .refl⟩
  · refine (nestedProperty_begin_yields element attributes s).left (fun _ s' hs' => ?_)
      fun _ s' he => becomes_of_eq he
    obtain ⟨parent, -, -, rfl⟩ := hs'
    exact .refl
  · show s.BecomesIf True attaches (left (setFromBody element text data s))
    unfold setFromBody
    split
    · next parent =>
      refine (setFromBody_yields element s text parent).left (fun _ s' hs' => ?_)
        fun _ s' he => becomes_of_eq he
      obtain ⟨ds, rfl⟩ | ⟨c, c', value, hc, hset, rfl⟩ := hs'
      · exact becomes_reporting s ds
      · exact .single (.set trivial hc hset)
    · exact .refl

theorem builtins_confined : ∀ entry ∈ builtins, entry.1.Confined := by
  unfold builtins
  simp only [List.forall_mem_cons, List.not_mem_nil, false_imp_iff, implies_true, and_true]
  exact ⟨configuration_confined, contextName_confined, property_confined, conversionRule_confined,
    logger_confined, rootLogger_confined, level_confined, appender_confined, appenderRef_confined,
    layout_confined, param_confined, newRule_confined, nestedComponent_confined,
    nestedProperty_confined⟩

end Actions
end LogConfig
