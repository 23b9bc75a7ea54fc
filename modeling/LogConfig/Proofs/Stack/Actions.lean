import LogConfig.Proofs.Effects.Actions
import LogConfig.Proofs.Stack.Keeping

/-
  Every built-in action is disciplined: its begin phase pushes at most one object, its body phase
  keeps the stack, and its end phase takes exactly the object pushed, when that is on top.
-/

namespace LogConfig

/-- What the later phases of an action do to the stack when it began with these data. -/
structure Action.Releases (a : Action) (data : Option ActionData) (pushed : Option Ref) : Prop where
  body_keeps : ∀ name text s, (Phase.left (a.body name text data s).1).stack = s.stack
  body_data : ∀ name text s, (a.body name text data s).2 = data
  finish_releases : ∀ name, (a.finish name data).Releases pushed

/-- An action that pushes at most one object and later takes no other. -/
def Action.Disciplined (a : Action) : Prop :=
  ∀ name attributes s, (a.begin name attributes).Ends s fun data st =>
    ∃ pushed : Option Ref, st = pushed.toList ++ s.stack ∧ a.Releases data pushed

/-- The number of an instance is not used by its phases. -/
theorem Action.Disciplined.instance {a : Action} (h : a.Disciplined) (n : Nat) :
    { a with instanceId := n }.Disciplined := by
  intro name attributes s
  refine (h name attributes s).mono fun data st hp => ?_
  obtain ⟨pushed, hst, hr⟩ := hp
  exact ⟨pushed, hst, hr.body_keeps, hr.body_data, hr.finish_releases⟩

namespace Session

variable {s s' : Session}

theorem Popped.stack {r : Ref} (h : s.Popped r s') :
    s'.stack = Phase.release (some r) s.stack := by
  rw [Phase.release_some]
  cases h with
  | taken htop => rw [if_pos (show s.stack.head? = some r from htop)]; rfl
  | left htop => rw [if_neg (show ¬ s.stack.head? = some r from htop)]; rfl

theorem stack_activated_pop {r : Ref} (htop : s.top? = some r) :
    (s.activated r).pop.stack = Phase.release (some r) s.stack := by
  rw [Phase.release_some, if_pos (show s.stack.head? = some r from htop), pop, stack_activated]

theorem Delivered.stack {child : Ref} {parent? : Option Ref} (h : s.Delivered child parent? s') :
    s'.stack = Phase.release (some child) s.stack := by
  cases h with
  | left htop =>
    rw [Phase.release_some, if_neg (show ¬ s.stack.head? = some child from htop)]
    exact stack_activated s child
  | attached htop _ _ => exact stack_activated_pop htop

end Session

namespace Actions

open Phase

/-- An action none of whose phases changes the stack is disciplined. -/
theorem disciplined_of_keeps {a : Action} (hb : ∀ name attributes, (a.begin name attributes).Keeps)
    (hbody : ∀ name text data s, (left (a.body name text data s).1).stack = s.stack)
    (hdata : ∀ name text data s, (a.body name text data s).2 = data)
    (hf : ∀ name data, (a.finish name data).Keeps) : a.Disciplined := by
  intro name attributes s
  refine ((hb name attributes).ends s).mono fun data st hst => ?_
  exact ⟨none, hst, fun name text => hbody name text data, fun name text => hdata name text data,
    fun name => (hf name data).releases⟩

/-- An action that only begins is disciplined when its begin phase keeps the stack. -/
theorem disciplined_of_begin_keeps {name : String}
    {begin : String → Attributes → Phase (Option ActionData)}
    (hb : ∀ element attributes, (begin element attributes).Keeps) :
    Action.Disciplined { name, begin } :=
  disciplined_of_keeps hb (fun _ _ _ _ => rfl) (fun _ _ _ _ => rfl) fun _ _ => keeps_pure ()

variable (element : String) (attributes : Attributes)

/-! ### Context -/

theorem beginConfiguration_keeps : (beginConfiguration element attributes).Keeps := by
  refine fun s => (beginConfiguration_yields element attributes s).stack (fun _ s' hs' => ?_)
    fun _ s' he => by rw [he]
  obtain ⟨-, debug, ds, rfl⟩ := hs'
  rfl

theorem configuration_disciplined : configuration.Disciplined :=
  disciplined_of_keeps beginConfiguration_keeps (fun _ _ _ _ => rfl) (fun _ _ _ _ => rfl)
    fun _ _ _ => rfl

theorem contextName_disciplined : contextName.Disciplined := by
  refine disciplined_of_keeps (fun _ _ => keeps_pure none) (fun element text data s => ?_)
    (fun _ _ _ _ => rfl) fun _ _ => keeps_pure ()
  refine (nameContext_yields element s text data).stack (fun _ s' hs' => ?_)
    fun _ s' he => by rw [he]
  obtain ⟨place, c, name, renamed, ds, -, -, -, rfl⟩ := hs'
  rfl

theorem beginConversionRule_keeps : (beginConversionRule element attributes).Keeps := by
  refine fun s => (beginConversionRule_yields element attributes s).stack (fun _ s' hs' => ?_)
    fun _ s' he => by rw [he]
  obtain ⟨-, place, c, word, converter, ds, -, rfl⟩ := hs'
  rfl

theorem beginProperty_keeps : (beginProperty element attributes).Keeps := by
  refine fun s => (beginProperty_yields element attributes s).stack (fun _ s' hs' => ?_)
    fun _ s' he => ?_
  · obtain ⟨-, scope, entries, ds, rfl⟩ := hs'
    obtain ⟨graph, properties, hdefined⟩ := exists_definingAll_eq s scope entries
    rw [hdefined]
    rfl
  · obtain ⟨ds, rfl⟩ := he
    rfl

theorem beginNewRule_keeps : (beginNewRule element attributes).Keeps := by
  refine fun s => (beginNewRule_yields element attributes s).stack (fun _ s' hs' => ?_)
    fun _ s' he => by rw [he]
  obtain ⟨-, pattern, actionClass, ds, rfl⟩ := hs'
  rfl

/-! ### Loggers -/

/-- Data that name the object pushed, for an action that only takes it from the stack again. -/
theorem releases_finishPushed {a : Action} {what : String}
    (hb : ∀ name text data s, a.body name text data s = (.ok () s, data))
    (hf : a.finish = finishPushed what) (r : Ref) : a.Releases (some (.component r)) (some r) where
  body_keeps name text s := by
    rw [hb]
    rfl
  body_data name text s := by rw [hb]
  finish_releases name s := by
    rw [hf]
    exact (finishPushed_yields name s what r).stack (fun _ _ h => h.stack) nofun

theorem logger_disciplined : logger.Disciplined := by
  refine fun element attributes s => (beginLogger_yields element attributes s).ends
    (fun data s' hs' => ?_) fun _ s' he => ?_
  · obtain ⟨name, declared, r, leveled, graph, ds, -, -, -, rfl, rfl⟩ := hs'
    exact ⟨some r, rfl, releases_finishPushed (fun _ _ _ _ => rfl) rfl r⟩
  · rcases he with ⟨ds, rfl⟩ | ⟨name, declared, r, leveled, ds, -, -, rfl, -⟩
    · rfl
    · rfl

theorem rootLogger_disciplined : rootLogger.Disciplined := by
  refine fun element attributes s => (beginRoot_yields element attributes s).ends
    (fun data s' hs' => ?_) fun _ s' he => by rw [he]
  obtain ⟨place, c, graph, ds, -, -, rfl, rfl⟩ := hs'
  exact ⟨some c.root, rfl, releases_finishPushed (fun _ _ _ _ => rfl) rfl c.root⟩

theorem beginLevel_keeps : (beginLevel element attributes).Keeps := by
  refine fun s => (beginLevel_yields element attributes s).stack (fun _ s' hs' => ?_)
    fun _ s' he => by rw [he]
  obtain ⟨-, r, graph, ds, -, -, rfl⟩ := hs'
  rfl

/-! ### Appenders -/

theorem releases_finishAppender (r : Ref) : appender.Releases (some (.component r)) (some r) where
  body_keeps _ _ _ := rfl
  body_data _ _ _ := rfl
  finish_releases name s := by
    refine (finishAppender_yields name s r).stack (fun _ s' h => ?_) nofun
    rw [h.stack, Session.stack_activated]

theorem appender_disciplined : appender.Disciplined := by
  refine fun element attributes s => (beginAppender_yields element attributes s).ends
    (fun data s' hs' => ?_) fun _ s' he => ?_
  · obtain ⟨className, c, ds, -, rfl, rfl | ⟨name, named, -, rfl⟩⟩ := hs'
    · exact ⟨some s.graph.next, rfl, releases_finishAppender _⟩
    · exact ⟨some s.graph.next, rfl, releases_finishAppender _⟩
  · obtain rfl | ⟨className, c, ds, -, rfl⟩ := he
    · rfl
    · rfl

theorem beginAppenderRef_keeps : (beginAppenderRef element attributes).Keeps := by
  refine fun s => (beginAppenderRef_yields element attributes s).stack (fun _ s' hs' => ?_)
    fun _ s' he => by rw [he]
  obtain ⟨-, target, c, name, appender, graph, ds, -, -, -, -, -, -, rfl⟩ := hs'
  rfl

theorem releases_finishLayout (r : Ref) : layout.Releases (some (.component r)) (some r) where
  body_keeps _ _ _ := rfl
  body_data _ _ _ := rfl
  finish_releases name s := by
    refine (finishLayout_yields name s r).stack (fun _ _ h => h.stack) fun _ s' he => ?_
    obtain ⟨htop, rfl⟩ := he
    exact Session.stack_activated_pop htop

theorem layout_disciplined : layout.Disciplined := by
  refine fun element attributes s => (beginLayout_yields element attributes s).ends
    (fun data s' hs' => ?_) fun _ s' he => by rw [he]
  obtain ⟨className, c, -, rfl, rfl⟩ := hs'
  exact ⟨some s.graph.next, rfl, releases_finishLayout _⟩

/-! ### Nested elements -/

theorem beginParam_keeps : (beginParam element attributes).Keeps := by
  refine fun s => (beginParam_yields element attributes s).stack (fun _ s' hs' => ?_)
    fun _ s' he => by rw [he]
  obtain ⟨-, ⟨ds, rfl⟩ | ⟨target, c, c', name, text, -, -, -, rfl⟩⟩ := hs'
  · rfl
  · rfl

theorem releases_finishNestedComponent (parent : Ref) (aggregation : Aggregation) (child : Ref) :
    nestedComponent.Releases (some (.nested parent aggregation child)) (some child) where
  body_keeps _ _ _ := rfl
  body_data _ _ _ := rfl
  finish_releases name s := by
    refine (finishNestedComponent_yields name s parent child aggregation).stack
      (fun _ _ h => h.stack) fun _ s' he => ?_
    obtain ⟨htop, rfl⟩ := he
    exact Session.stack_activated_pop htop

theorem nestedComponent_disciplined : nestedComponent.Disciplined := by
  refine fun element attributes s => (beginNestedComponent_yields element attributes s).ends
    (fun data s' hs' => ?_) fun _ s' he => by rw [he]
  obtain ⟨parent, c, kind, className, child, -, -, -, -, rfl, rfl⟩ := hs'
  exact ⟨some s.graph.next, rfl, releases_finishNestedComponent _ _ _⟩

theorem beginNestedProperty_keeps : (nestedProperty.begin element attributes).Keeps := by
  refine fun s => (nestedProperty_begin_yields element attributes s).stack (fun _ s' hs' => ?_)
    fun _ s' he => by rw [he]
  obtain ⟨parent, -, -, rfl⟩ := hs'
  rfl

theorem stack_setFromBody (text : String) (data : Option ActionData) (s : Session) :
    (left (setFromBody element text data s)).stack = s.stack := by
  unfold setFromBody
  split
  · next parent =>
    refine (setFromBody_yields element s text parent).stack (fun _ s' hs' => ?_)
      fun _ s' he => by rw [he]
    obtain ⟨ds, rfl⟩ | ⟨c, c', value, -, -, rfl⟩ := hs'
    · rfl
    · rfl
  · rfl

theorem nestedProperty_disciplined : nestedProperty.Disciplined :=
  disciplined_of_keeps beginNestedProperty_keeps stack_setFromBody (fun _ _ _ _ => rfl)
    fun _ _ => keeps_pure ()

/-! ### All of them -/

theorem builtins_disciplined : ∀ entry ∈ builtins, entry.1.Disciplined := by
  unfold builtins
  simp only [List.forall_mem_cons, List.not_mem_nil, false_imp_iff, implies_true, and_true]
  exact ⟨configuration_disciplined, contextName_disciplined,
    disciplined_of_begin_keeps beginProperty_keeps,
    disciplined_of_begin_keeps beginConversionRule_keeps, logger_disciplined,
    rootLogger_disciplined, disciplined_of_begin_keeps beginLevel_keeps, appender_disciplined,
    disciplined_of_begin_keeps beginAppenderRef_keeps, layout_disciplined,
    disciplined_of_begin_keeps beginParam_keeps, disciplined_of_begin_keeps beginNewRule_keeps,
    nestedComponent_disciplined, nestedProperty_disciplined⟩

end Actions
end LogConfig
