import LogConfig.Proofs.Stack.Elements

/-
  The stack over a whole session. In every session with the built-in actions an element only adds
  to the stack; it leaves the stack as it was exactly when the objects that each start within it
  pushed read the same from both ends. One object always does. Two objects of two actions on one
  element do not, unless they are one: the end phases run in the order of the begin phases, so the
  first of them finds the object of the second on top and leaves it there.

  Proved:
  * `run_disciplined`: in every state of a session all actions are disciplined.
  * `session_run_events`: a session is what its callbacks make of it, the forced end included.
  * `element_stack_iff`, `session_stack_iff`: the law for one element and for the whole session.
  * `stack_restored_iff`: both together, for the built-in classes and actions.
  * `stack_not_restored`: a document of three elements in which the law leaves an object behind.
-/

namespace LogConfig

namespace Document

/-- What a reader tells up to the end of the document. -/
def reported (source : String) : List DocumentEvent :=
  .startDocument :: eventsFrom source.toList {} (markupOf source.toList)

theorem endDocument_not_mem_eventsOfMarkup (m : Markup) : .endDocument ∉ eventsOfMarkup m := by
  have faults : ∀ attributes : List (Except String (String × String)),
      .endDocument ∉ attributeFaults attributes := by
    intro attributes h
    obtain ⟨entry, -, he⟩ := List.mem_filterMap.1 h
    cases entry with
    | error message => cases he
    | ok entry => cases he
  cases m with
  | openTag content nameLength closed =>
    intro h
    rcases List.mem_append.1 h with h | h
    · exact faults _ h
    · cases closed <;> simp at h
  | text raw =>
    unfold eventsOfMarkup
    dsimp only
    split <;> simp
  | _ => simp [eventsOfMarkup]

theorem endDocument_not_mem_reported (source : String) : .endDocument ∉ reported source := by
  have later : ∀ (pieces : List (Markup × Nat)) (tracker : Tracker),
      .endDocument ∉ eventsFrom source.toList tracker pieces := by
    intro pieces
    induction pieces with
    | nil => exact fun tracker => List.not_mem_nil
    | cons piece rest ih =>
      intro tracker h
      unfold eventsFrom at h
      rcases List.mem_append.1 h with h | h
      · rcases List.mem_cons.1 h with h | h
        · cases h
        · exact endDocument_not_mem_eventsOfMarkup piece.1 h
      · exact ih _ h
  intro h
  rcases List.mem_cons.1 h with h | h
  · cases h
  · exact later _ _ h

end Document

namespace Interpreter

/-! ### Every state of a session -/

/-- For every open element the actions that began hold some objects. -/
def Holding (i : Interpreter) : Prop := ∀ begun ∈ i.openActions, ∃ rs, Held begun rs

theorem step_disciplined {i : Interpreter} (h : i.Disciplined) (hh : i.Holding)
    {e : DocumentEvent} (he : e ≠ .endDocument) : (i.step e).Disciplined ∧ (i.step e).Holding := by
  by_cases hflat : e.isFlat = true
  · obtain ⟨-, -, -, hopen, -⟩ := i.step_flat hflat
    refine ⟨h.step_flat hflat, ?_⟩
    unfold Holding
    rw [hopen]
    exact hh
  cases e with
  | startElement name attributes =>
    obtain ⟨hstart, begun, rs, hheld, hopen, -⟩ := startElement_spec h name attributes
    refine ⟨hstart, fun b hb => ?_⟩
    rw [show (i.step (.startElement name attributes)).openActions = _ from hopen] at hb
    rcases List.mem_cons.1 hb with rfl | hb
    · exact ⟨rs, hheld⟩
    · exact hh b hb
  | endElement name =>
    cases ho : i.openActions with
    | nil =>
      obtain ⟨hend, hframes, -⟩ := endElement_stray h (List.map_eq_nil_iff.1 ho) name
      refine ⟨hend, fun b hb => ?_⟩
      unfold openActions at hb
      rw [show (i.step (.endElement name)).frames = _ from hframes] at hb
      exact absurd hb List.not_mem_nil
    | cons begun outer =>
      obtain ⟨rs, hheld⟩ := hh begun (by rw [ho]; exact List.mem_cons_self)
      obtain ⟨hend, hopen, -⟩ := endElement_spec h ho hheld name
      refine ⟨hend, fun b hb => ?_⟩
      rw [show (i.step (.endElement name)).openActions = _ from hopen] at hb
      exact hh b (by rw [ho]; exact List.mem_cons_of_mem _ hb)
  | endDocument => exact absurd rfl he
  | _ => exact absurd rfl hflat

theorem run_disciplined {i : Interpreter} (h : i.Disciplined) (hh : i.Holding)
    {es : List DocumentEvent} (he : .endDocument ∉ es) : (i.run es).Disciplined := by
  induction es generalizing i with
  | nil => exact h
  | cons e es ih =>
    have hhead : e ≠ .endDocument := (List.ne_of_not_mem_cons he).symm
    have hrest : .endDocument ∉ es := List.not_mem_of_not_mem_cons he
    obtain ⟨hstep, hholding⟩ := step_disciplined h hh hhead
    rw [run_cons]
    exact ih hstep hholding hrest

end Interpreter

namespace Configurator

open Interpreter

/-- The callbacks of a session: what the reader tells, and the end forced for what is open then. -/
def callbacks (c : Configurator) (g : Graph) (source : String) : List DocumentEvent :=
  Document.reported source ++ ((c.interpreter g).run (Document.reported source)).forced

theorem endDocument_not_mem_callbacks (c : Configurator) (g : Graph) (source : String) :
    .endDocument ∉ c.callbacks g source := by
  intro h
  rcases List.mem_append.1 h with h | h
  · exact Document.endDocument_not_mem_reported source h
  · exact endDocument_not_mem_forced _ h

/-- A session is what its callbacks make of it. -/
theorem session_run_events (c : Configurator) (g : Graph) (source : String) :
    ((c.interpreter g).run (Document.events source)).session =
      ((c.interpreter g).run (c.callbacks g source)).session := by
  unfold callbacks
  rw [run_append, ← session_endDocument]
  show ((c.interpreter g).run (Document.reported source ++ [.endDocument])).session = _
  rw [run_append]
  rfl

/-- Before its document is read a session is fresh but for its properties. -/
theorem session_eq (c : Configurator) (g : Graph) : ∃ properties, c.session g =
    { graph := g
      stack := [c.context]
      overrides := Entries.ofList c.options.overrides
      usesProcessVariables := c.options.usesProcessVariables
      environment := c.environment
      classes := c.classes
      debug := c.options.debug
      properties } := by
  have defined : ∀ (entries : List (String × String)) (s : Session),
      ∃ properties, s.defineProperties entries = { s with properties } := by
    intro entries s
    unfold Session.defineProperties
    refine List.foldlRecOn (motive := fun t : Session => ∃ properties, t = { s with properties })
      entries _ ⟨s.properties, rfl⟩ ?_
    rintro t ⟨properties, rfl⟩ entry _
    unfold Session.defineProperty
    split
    · exact ⟨properties, rfl⟩
    · exact ⟨_, rfl⟩
  obtain ⟨properties, hdefined⟩ := defined (Entries.ofList c.options.properties) _
  exact ⟨properties, congrArg (fun s : Session => s.push c.context) hdefined⟩

/-- A session starts with the context alone on its stack. -/
theorem stack_session (c : Configurator) (g : Graph) : (c.session g).stack = [c.context] := by
  obtain ⟨properties, h⟩ := c.session_eq g
  rw [h]

theorem disciplined_interpreter (c : Configurator) (hc : c.actions.All Action.Disciplined)
    (g : Graph) : (c.interpreter g).Disciplined := by
  refine ⟨Actions.all_defaultStore (fun _ n ha => ha.instance n) Actions.builtins_disciplined hc,
    ?_⟩
  intro rule hrule
  rcases List.mem_cons.1 hrule with rfl | hrule
  · exact Actions.nestedComponent_disciplined
  · rw [List.mem_singleton.1 hrule]
    exact Actions.nestedProperty_disciplined

theorem all_registry_disciplined : Actions.registry.All Action.Disciplined :=
  Actions.all_registry Actions.builtins_disciplined

section Sessions

variable (c : Configurator) (g : Graph) (source : String)

theorem exists_element_callbacks {before rest : List DocumentEvent} {name : String}
    {attributes : Attributes}
    (h : c.callbacks g source = before ++ .startElement name attributes :: rest) :
    ∃ e : Element (c.callbacks g source),
      e.before = before ∧ e.name = name ∧ e.attributes = attributes := by
  have halign : (c.interpreter g).Aligned := rfl
  unfold callbacks at h ⊢
  exact exists_element halign (Document.endDocument_not_mem_reported source) h

theorem element_stack_iff (hc : c.actions.All Action.Disciplined)
    (e : Element (c.callbacks g source)) :
    ((c.interpreter g).run e.before).session.stack <:+
        ((c.interpreter g).run (e.before ++ e.itself)).session.stack ∧
      (((c.interpreter g).run (e.before ++ e.itself)).session.stack =
          ((c.interpreter g).run e.before).session.stack ↔
        ((c.interpreter g).run e.before).StartsMirrored e.itself) := by
  have hbefore : .endDocument ∉ e.before := by
    intro hmem
    refine endDocument_not_mem_callbacks c g source ?_
    rw [e.split]
    exact List.mem_append_left _ hmem
  have hholding : (c.interpreter g).Holding := fun begun hbegun => absurd hbegun List.not_mem_nil
  have hrun := run_disciplined (disciplined_interpreter c hc g) hholding hbefore
  obtain ⟨-, -, hsuffix, hiff⟩ := run_nested e.nested_itself hrun (by simp)
  rw [run_append]
  exact ⟨hsuffix, hiff⟩

theorem session_stack_iff (hc : c.actions.All Action.Disciplined) :
    [c.context] <:+ (c.run g source).stack ∧
      ((c.run g source).stack = [c.context] ↔
        (c.interpreter g).StartsMirrored (c.callbacks g source)) := by
  have halign : (c.interpreter g).Aligned := rfl
  have hread := Document.endDocument_not_mem_reported source
  have hnested : Nested true (c.callbacks g source) :=
    Closes.after hread (halign.run hread).closes_forced
  obtain ⟨-, -, hsuffix, hiff⟩ := run_nested hnested (disciplined_interpreter c hc g) fun _ => rfl
  have hend : (c.run g source).stack =
      ((c.interpreter g).run (c.callbacks g source)).session.stack := by
    rw [← session_run_events c g source]
    unfold Configurator.run finish
    split
    · rfl
    · rfl
  rw [hend, ← stack_session c g]
  exact ⟨hsuffix, hiff⟩

/-- Where every element leaves the stack as it was, so does the session. -/
theorem session_stack_of_elements (hc : c.actions.All Action.Disciplined)
    (h : ∀ e : Element (c.callbacks g source),
      ((c.interpreter g).run (e.before ++ e.itself)).session.stack =
        ((c.interpreter g).run e.before).session.stack) :
    (c.run g source).stack = [c.context] := by
  refine (session_stack_iff c g source hc).2.2 fun before name attributes rest hes => ?_
  obtain ⟨e, rfl, rfl, rfl⟩ := exists_element_callbacks c g source hes
  have hmirrored := (element_stack_iff c g source hc e).2.1 (h e)
  have hstart := hmirrored [] e.name e.attributes _ rfl
  rwa [run_nil] at hstart

end Sessions

/-- The stack discipline of a session with the built-in actions. Every element that starts also
ends, by its end tag or by force. What was on the stack before an element is still there after it,
and nothing else is, exactly when every start from its own to its end pushes objects that read the
same from both ends. The context stays at the bottom, and it is left alone exactly when this holds
of all starts of the document. -/
theorem stack_restored_iff (context : Ref) (options : SessionOptions) (environment : Environment)
    (g : Graph) (source : String) :
    let c : Configurator := { context, options, environment }
    let i := c.interpreter g
    let es := c.callbacks g source
    (∀ before name attributes rest, es = before ++ .startElement name attributes :: rest →
      ∃ e : Element es, e.before = before ∧ e.name = name ∧ e.attributes = attributes) ∧
    (∀ e : Element es,
      (i.run e.before).session.stack <:+ (i.run (e.before ++ e.itself)).session.stack ∧
      ((i.run (e.before ++ e.itself)).session.stack = (i.run e.before).session.stack ↔
        (i.run e.before).StartsMirrored e.itself)) ∧
    [context] <:+ (c.run g source).stack ∧
    ((c.run g source).stack = [context] ↔ i.StartsMirrored es) := by
  intro c i es
  exact ⟨fun before name attributes rest hes => exists_element_callbacks c g source hes,
    element_stack_iff c g source all_registry_disciplined,
    session_stack_iff c g source all_registry_disciplined⟩

/-- A document that binds a second action to its loggers. The start of the logger pushes the
logger and then the root logger; its end finds the root logger on top, leaves it there for the
action of the logger, and takes it for the other. The logger stays on the stack. -/
theorem stack_not_restored :
    let g := (Graph.addContext {} "test").1
    let c : Configurator := { context := (Graph.addContext {} "test").2 }
    let source := "<configuration><newRule pattern=\"configuration/logger\" " ++
      "actionClass=\"RootLoggerAction\"/><logger name=\"x\"/></configuration>"
    (∃ e : Element (c.callbacks g source),
      ((c.interpreter g).run (e.before ++ e.itself)).session.stack ≠
        ((c.interpreter g).run e.before).session.stack) ∧
      (c.run g source).depth = 2 := by
  intro g c source
  have hdepth : (c.run g source).depth = 2 := by decide +kernel
  refine ⟨?_, hdepth⟩
  rcases Classical.em (∃ e : Element (c.callbacks g source),
      ((c.interpreter g).run (e.before ++ e.itself)).session.stack ≠
        ((c.interpreter g).run e.before).session.stack) with hsome | hnone
  · exact hsome
  · have hall := session_stack_of_elements c g source all_registry_disciplined fun e =>
      Decidable.not_not.1 fun hne => hnone ⟨e, hne⟩
    rw [Session.depth, hall] at hdepth
    cases hdepth

end Configurator
end LogConfig
