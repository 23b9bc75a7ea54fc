import LogConfig.Proofs.Lifecycle.Elements
import LogConfig.Proofs.Stack.Balance

/-
  Components are activated once, at the end of their own element. A component with a lifecycle that
  the start of an element pushes stays on the stack up to the end of the element, so it is not
  activated before. It is gone from the stack afterwards, so the end activated it. And sessions in
  order keep what was activated as it is.
-/

namespace LogConfig

open Session

variable {context : Ref} {s : Session}

/-- Of all activations called so far one is of the component, and the component is as that one left
it. -/
structure Session.ActivatedOnce (s : Session) (r : Ref) (x : Activation) : Prop where
  once : (s.activations.filter fun y => y.component = r) = [x]
  kept : s.graph.get? r = x.result?

theorem filter_eq_singleton {α β : Type} [DecidableEq β] {f : α → β} {l : List α} {x : α}
    (hdistinct : (l.map f).Nodup) (hx : x ∈ l) : (l.filter fun y => f y = f x) = [x] := by
  induction l with
  | nil => cases hx
  | cons first rest ih =>
    rw [List.map_cons, List.nodup_cons] at hdistinct
    rcases List.mem_cons.1 hx with rfl | hx
    · have hnone : (rest.filter fun y => f y = f x) = [] := by
        rw [List.filter_eq_nil_iff]
        intro y hy he
        exact hdistinct.1 (List.mem_map.2 ⟨y, hy, of_decide_eq_true he⟩)
      rw [List.filter_cons_of_pos (by simp), hnone]
    · have hne : ¬ f first = f x := fun he =>
        hdistinct.1 (List.mem_map.2 ⟨x, hx, he.symm⟩)
      rw [List.filter_cons_of_neg (by simpa using hne), ih hdistinct.2 hx]

theorem Session.Orderly.activatedOnce (h : s.Orderly context) {x : Activation}
    (hx : x ∈ s.activations) : s.ActivatedOnce x.component x :=
  ⟨filter_eq_singleton h.once hx, (h.settled x hx).2.2⟩

namespace Interpreter

/-- The life of a component that the start of an element pushes. Inside the element it stays on the
stack, is not activated, and no component holds it. The call `x` that activates it is made at the
end of the element, while no component holds it. From then on it is the only such call, and the
component stays as it left it. -/
structure Lives (i : Interpreter) {es : List DocumentEvent} (e : Element es) (r : Ref)
    (x : Activation) : Prop where
  detached : x.graph.Detached r
  inside : ∀ p, p <+: e.inside →
    let s := (i.run (e.before ++ .startElement e.name e.attributes :: p)).session
    r ∈ s.stack ∧ ¬ s.Activated r ∧ s.graph.Detached r
  after : ∀ p, p <+: e.after → (i.run (e.before ++ e.itself ++ p)).session.ActivatedOnce r x

/-- What the start of an element pushes is new on the stack. -/
theorem mem_stack_of_pushedBy {i : Interpreter} (h : i.Orderly context) {name : String}
    (hname : name ∉ newRuleNames) {attributes : Attributes} {r : Ref}
    (hr : r ∈ i.pushedBy name attributes) :
    r ∈ (i.startElement name attributes).session.stack ∧ r ∉ i.session.stack := by
  obtain ⟨horderly, -, begun, -, hsits⟩ := startElement_orderly h hname attributes
  obtain ⟨rs, hstack⟩ : ∃ rs,
      (i.startElement name attributes).session.stack = rs ++ i.session.stack := by
    generalize (i.startElement name attributes).session.stack = stack at hsits
    cases hsits with
    | nothing => exact ⟨[], rfl⟩
    | one _ _ => exact ⟨_, rfl⟩
  have hdistinct := horderly.session.distinct
  rw [pushedBy_eq hstack] at hr
  rw [hstack] at hdistinct ⊢
  exact ⟨List.mem_append_left _ hr, fun hmem =>
    (List.nodup_append.1 hdistinct).2.2 r hr r hmem rfl⟩

/-- A component that is on the stack when nested callbacks are done was pending all along. -/
theorem pending_of_nested {i : Interpreter} (h : i.Orderly context) {es : List DocumentEvent}
    (hn : Nested false es) (hes : ∀ e ∈ es, e.Plain) {r : Ref} (hr : r ∈ i.session.stack)
    (hlife : i.session.graph.variety? r = some .lifecycle) {p : List DocumentEvent} (hp : p <+: es) :
    r ∈ (i.run p).session.stack ∧ ¬ (i.run p).session.Activated r ∧
      (i.run p).session.graph.Detached r := by
  obtain ⟨rest, rfl⟩ := hp
  obtain ⟨hplain, hrest⟩ := List.forall_mem_append.1 hes
  obtain ⟨hfull, -⟩ := run_nested_stack hn h hes (by simp)
  have toPoint := run_advances h hplain
  have onward := run_advances toPoint.orderly hrest
  have hstays := toPoint.leads.variety?_eq hlife
  rcases toPoint.activated r hr hlife with hmem | hactivated
  · exact ⟨hmem, toPoint.orderly.session.pending r hmem hstays⟩
  · -- once activated it would be gone for good
    refine absurd (onward.leads.activated hactivated) (onward.orderly.session.not_activated ?_)
    rw [← run_append, hfull]
    exact hr

/-- A component that can be activated has its life in the element whose start pushes it. -/
theorem exists_lives {i : Interpreter} (h : i.Orderly context) {es : List DocumentEvent}
    (hes : ∀ e ∈ es, e.Plain) (e : Element es) {r : Ref}
    (hr : r ∈ (i.run e.before).pushedBy e.name e.attributes) {held : Component}
    (hheld : (i.run (e.before ++ [.startElement e.name e.attributes])).session.graph.get? r =
      some held) (hactivates : held.activate? ≠ none) : ∃ x, i.Lives e r x := by
  have hplain : ∀ e' ∈ e.before ++ .startElement e.name e.attributes ::
      (e.inside ++ .endElement e.closing :: e.after), e'.Plain := by
    rw [← e.split]
    exact hes
  obtain ⟨hbefore, hothers⟩ := List.forall_mem_append.1 hplain
  obtain ⟨hname, hothers⟩ := List.forall_mem_cons.1 hothers
  obtain ⟨hinside, hothers⟩ := List.forall_mem_append.1 hothers
  obtain ⟨-, hafter⟩ := List.forall_mem_cons.1 hothers
  have prior := run_advances h hbefore
  obtain ⟨hpushed, hnew⟩ := mem_stack_of_pushedBy prior.orderly hname hr
  obtain ⟨horderly, -⟩ := startElement_orderly prior.orderly hname e.attributes
  rw [run_append] at hheld
  have hvariety : ((i.run e.before).startElement e.name e.attributes).session.graph.variety? r =
    some held.variety := Graph.variety?_of_get? hheld
  have hcustom : held.variety ≠ .custom := fun he =>
    horderly.session.variety?_ne_custom hpushed (hvariety.trans (congrArg some he))
  have hlife : ((i.run e.before).startElement e.name e.attributes).session.graph.variety? r =
      some .lifecycle := by
    rw [hvariety, Option.some.injEq, ← Component.isSome_activate?_iff hcustom]
    exact Option.isSome_iff_ne_none.2 hactivates
  -- the end takes it from the stack
  have hitself : ∀ e' ∈ e.inside ++ [.endElement e.closing], e'.Plain :=
    List.forall_mem_append.2 ⟨hinside, by simp [DocumentEvent.Plain]⟩
  have whole := run_advances horderly hitself
  obtain ⟨hrestored, -⟩ := run_nested_stack e.nested_itself prior.orderly
    (List.forall_mem_cons.2 ⟨hname, hitself⟩) (by simp)
  have hactivated : (((i.run e.before).startElement e.name e.attributes).run
      (e.inside ++ [.endElement e.closing])).session.Activated r := by
    refine (whole.activated r hpushed hlife).resolve_left fun hmem => hnew ?_
    rw [← hrestored]
    exact hmem
  obtain ⟨x, hx, rfl⟩ := hactivated
  refine ⟨x, (whole.orderly.session.settled x hx).1, fun p hp => ?_, ?_⟩
  · rw [run_append]
    exact pending_of_nested horderly e.nested hinside hpushed hlife hp
  · rintro p ⟨rest, hrest⟩
    rw [← hrest] at hafter
    have onward := run_advances whole.orderly (List.forall_mem_append.1 hafter).1
    rw [run_append, run_append]
    exact onward.orderly.session.activatedOnce (onward.leads.activations.subset hx)

end Interpreter

namespace Configurator

open Interpreter

theorem orderly_interpreter (context : Ref) (options : SessionOptions) (environment : Environment)
    {g : Graph} (hg : g.WellFormed context) :
    (({ context, options, environment } : Configurator).interpreter g).Orderly context := by
  have hcontext : g.variety? context = some .context := by
    obtain ⟨c, hc, -⟩ := hg.loggers
    exact Graph.variety?_of_context? hc
  obtain ⟨properties, hsession⟩ :=
    session_eq ({ context, options, environment } : Configurator) g
  have horderly : (({ context, options, environment } : Configurator).session g).Orderly
      context := by
    rw [hsession]
    refine ⟨hg, rfl, rfl, List.suffix_refl _, by simp, ?_, ?_, ?_, nofun, List.nodup_nil, nofun⟩
    · exact fun r hr => .inl (List.mem_singleton.1 hr)
    · intro above r below hstack hr
      have hmem : r ∈ [context] := by
        rw [show [context] = above ++ r :: below from hstack]
        simp
      rw [List.mem_singleton.1 hmem, show g.variety? context = _ from hcontext] at hr
      cases hr
    · intro r hr hlife
      rw [List.mem_singleton.1 hr, show g.variety? context = _ from hcontext] at hlife
      cases hlife
  refine ⟨horderly, rfl, ?_, Actions.minds_defaultStore context _, ?_⟩
  · show Layered context _ [] (session _ g).stack
    rw [stack_session]
    exact .base
  · intro rule hrule depth
    rcases List.mem_cons.1 hrule with rfl | hrule
    · exact Actions.nestedComponent_minds
    · rw [List.mem_singleton.1 hrule]
      exact Actions.nestedProperty_minds

/-- Callbacks of a document that asks for no new rule. -/
theorem plain_callbacks {c : Configurator} {g : Graph} {source : String}
    (h : ∀ name attributes, .startElement name attributes ∈ Document.events source →
      name ≠ "newRule" ∧ name ≠ "new-rule") : ∀ e ∈ c.callbacks g source, e.Plain := by
  intro e he
  cases e with
  | startElement name attributes =>
    rcases List.mem_append.1 he with he | he
    · obtain ⟨hfirst, hsecond⟩ := h name attributes (List.mem_append_left _ he)
      simp [DocumentEvent.Plain, newRuleNames, hfirst, hsecond]
    · exact absurd he (startElement_not_mem_forced _ name attributes)
  | endDocument => exact absurd he (endDocument_not_mem_callbacks c g source)
  | _ => trivial

/-- A document that asks for no new rule leaves a graph in which the context can be configured
again. -/
theorem wellFormed_configure (context : Ref) (options : SessionOptions) (environment : Environment)
    (g : Graph) (source : String) (hg : g.WellFormed context)
    (hnew : ∀ name attributes, .startElement name attributes ∈ Document.events source →
      name ≠ "newRule" ∧ name ≠ "new-rule") :
    (({ context, options, environment } : Configurator).configure g source).1.WellFormed
      context := by
  have hend := (run_advances (orderly_interpreter context options environment hg)
    (plain_callbacks (c := { context, options, environment }) (g := g) hnew)).orderly
  have hgraph := hend.session.graph
  rw [← session_run_events] at hgraph
  show (finish _).graph.WellFormed context
  unfold finish
  split
  · exact hgraph
  · exact hgraph

/-- Every component with a lifecycle is activated once. Take any document without an element that
asks for a new rule, over any logger context, up to its end or to a fatal error. Only starts of
elements put objects on the stack. If such an object has a lifecycle, its activation is called
once, at the end of the element that put it there, whether this end is in the document or forced;
no component holds it before; and from then on it does not change any more, whether it is active or
refused. -/
theorem lifecycle_activated_once (context : Ref) (options : SessionOptions)
    (environment : Environment) (g : Graph) (source : String) (hg : g.WellFormed context)
    (hnew : ∀ name attributes, .startElement name attributes ∈ Document.events source →
      name ≠ "newRule" ∧ name ≠ "new-rule") :
    let c : Configurator := { context, options, environment }
    let i := c.interpreter g
    let es := c.callbacks g source
    (∀ before e rest, es = before ++ e :: rest →
      (∀ name attributes, e ≠ .startElement name attributes) →
        (i.run (before ++ [e])).session.stack <:+ (i.run before).session.stack) ∧
    ∀ before name attributes rest, es = before ++ .startElement name attributes :: rest →
      ∀ r ∈ (i.run before).pushedBy name attributes, ∀ held,
        (i.run (before ++ [.startElement name attributes])).session.graph.get? r = some held →
        held.activate? ≠ none →
        ∃ (e : Element es) (x : Activation),
          e.before = before ∧ e.name = name ∧ e.attributes = attributes ∧ i.Lives e r x ∧
          (c.run g source).ActivatedOnce r x := by
  intro c i es
  have horderly : i.Orderly context := orderly_interpreter context options environment hg
  have hplain : ∀ e ∈ es, e.Plain := plain_callbacks hnew
  constructor
  · intro before e rest hes hnot
    rw [hes] at hplain
    obtain ⟨hbefore, hothers⟩ := List.forall_mem_append.1 hplain
    rw [run_append]
    exact (step_advances (run_advances horderly hbefore).orderly
      (hothers e List.mem_cons_self)).2 hnot
  · intro before name attributes rest hes r hr held hheld hactivates
    obtain ⟨e, rfl, rfl, rfl⟩ := exists_element_callbacks c g source hes
    obtain ⟨x, hx⟩ := exists_lives horderly hplain e hr hheld hactivates
    refine ⟨e, x, rfl, rfl, rfl, hx, ?_⟩
    have hend := hx.after e.after (List.prefix_refl _)
    have hall : e.before ++ e.itself ++ e.after = es := by
      refine Eq.trans ?_ e.split.symm
      simp [Element.itself]
    rw [hall, ← session_run_events] at hend
    -- the end of the session only adds a diagnostic
    unfold run finish
    split
    · exact hend
    · exact ⟨hend.once, hend.kept⟩

/-- The document of an appender that is still open when a fatal error ends it. -/
theorem lifecycle_activated_once_fatal :
    let g := (Graph.addContext {} "test").1
    let c : Configurator := { context := (Graph.addContext {} "test").2 }
    let i := c.interpreter g
    let source := "<configuration><appender name=\"A\" class=\"ConsoleAppender\">" ++
      "<layout class=\"PatternLayout\"><pattern>%m</pattern></layout></configuration>"
    let es := c.callbacks g source
    (g.WellFormed c.context ∧
      ∀ name attributes, .startElement name attributes ∈ Document.events source →
        name ≠ "newRule" ∧ name ≠ "new-rule") ∧
    (c.run g source).activations.length = 2 ∧
    (∀ before e rest, es = before ++ e :: rest →
      (∀ name attributes, e ≠ .startElement name attributes) →
        (i.run (before ++ [e])).session.stack <:+ (i.run before).session.stack) ∧
    ∀ before name attributes rest, es = before ++ .startElement name attributes :: rest →
      ∀ r ∈ (i.run before).pushedBy name attributes, ∀ held,
        (i.run (before ++ [.startElement name attributes])).session.graph.get? r = some held →
        held.activate? ≠ none →
        ∃ (e : Element es) (x : Activation),
          e.before = before ∧ e.name = name ∧ e.attributes = attributes ∧ i.Lives e r x ∧
          (c.run g source).ActivatedOnce r x := by
  intro g c i source es
  have hg : g.WellFormed c.context := Graph.wellFormed_addContext (g := {}) nofun "test"
  have hnames : ∀ e ∈ Document.events source, (match e with
      | .startElement name _ => name ≠ "newRule" ∧ name ≠ "new-rule"
      | _ => true) = true := by decide +kernel
  have hnew : ∀ name attributes, .startElement name attributes ∈ Document.events source →
      name ≠ "newRule" ∧ name ≠ "new-rule" := fun name attributes hmem => by
    simpa using hnames _ hmem
  exact ⟨⟨hg, hnew⟩, by decide +kernel,
    lifecycle_activated_once _ {} {} g source hg hnew⟩

end Configurator
end LogConfig
