import LogConfig.Proofs.Dispatch.History
import LogConfig.Proofs.Effects.Changes
import LogConfig.Proofs.Stack.Balance

/-
  How a session comes to be what it is. A trace starts at some session, with the calls made before
  it, and goes on by calls of phases, each made in the session reached by then, and by what is
  noted around them. The later phases of an action are called with data that an earlier call
  handed out for it.

  Whatever an interpreter is told, its session has a trace (`Interpreter.run_traces`). So what
  depends on how the calls of a session follow one another is proved by induction on traces, with
  one case for a call and one for what is noted.
-/

namespace LogConfig

/-! ### Traces -/

namespace Session

/-- Only what no action depends on is different: nothing of the graph, the appenders kept by name,
the classes or the stack. -/
structure Aside (s s' : Session) : Prop where
  graph : s'.graph = s.graph
  bag : s'.appenderBag = s.appenderBag
  classes : s'.classes = s.classes
  stack : s'.stack = s.stack

/-- From a session, after the calls `calls₀`, to another one, after further calls of actions in
`P`; the latest call stands first. -/
inductive Trace (P : Action → Prop) (calls₀ : List Call) (s₀ : Session) :
    List Call → Session → Prop where
  | nil : Trace P calls₀ s₀ calls₀ s₀
  | aside {calls : List Call} {s s' : Session} : Trace P calls₀ s₀ calls s → s.Aside s' →
    Trace P calls₀ s₀ calls s'
  | call {calls : List Call} {call : Call} : Trace P calls₀ s₀ calls call.session →
    call.Follows P calls → Trace P calls₀ s₀ (call :: calls) call.left

variable {P : Action → Prop} {calls₀ calls₁ calls₂ : List Call} {s₀ s₁ s₂ : Session}

theorem Trace.trans (h : Trace P calls₀ s₀ calls₁ s₁) (h' : Trace P calls₁ s₁ calls₂ s₂) :
    Trace P calls₀ s₀ calls₂ s₂ := by
  induction h' with
  | nil => exact h
  | aside _ haside ih => exact ih.aside haside
  | call _ hfollows ih => exact ih.call hfollows

theorem Trace.mono {Q : Action → Prop} (h : Trace P calls₀ s₀ calls₁ s₁) (hPQ : ∀ a, P a → Q a) :
    Trace Q calls₀ s₀ calls₁ s₁ := by
  induction h with
  | nil => exact .nil
  | aside _ haside ih => exact ih.aside haside
  | call _ hfollows ih => exact ih.call (hfollows.mono hPQ)

theorem Trace.suffix (h : Trace P calls₀ s₀ calls₁ s₁) : calls₀ <:+ calls₁ := by
  induction h with
  | nil => exact List.suffix_refl calls₀
  | aside _ _ ih => exact ih
  | call _ _ ih => exact ih.trans (List.suffix_cons _ _)

/-- Each call of a trace has a trace of its own, up to the session that it was made in. -/
theorem Trace.of_suffix (h : Trace P calls₀ s₀ calls₂ s₂) {call : Call}
    (hcall : call :: calls₁ <:+ calls₂) (hnew : calls₀ <:+ calls₁) :
    Trace P calls₀ s₀ calls₁ call.session ∧ call.Follows P calls₁ := by
  induction h with
  | nil =>
    have hlength := hcall.length_le
    rw [List.length_cons] at hlength
    have := hnew.length_le
    omega
  | aside _ _ ih => exact ih hcall
  | call htrace hfollows ih =>
    rcases List.suffix_cons_iff.1 hcall with heq | hcall
    · cases heq
      exact ⟨htrace, hfollows⟩
    · exact ih hcall

end Session

/-! ### The phases of an element -/

namespace Scene

variable {P : Action → Prop} {sc sc' sc'' : Scene}

/-- From one scene to the other the session has a trace, and the rules bind actions in `P`. -/
structure Traces (P : Action → Prop) (sc sc' : Scene) : Prop where
  actions : sc'.rules.All P
  trace : Session.Trace P sc.calls sc.session sc'.calls sc'.session

theorem Traces.refl (h : sc.rules.All P) : Traces P sc sc := ⟨h, .nil⟩

theorem Traces.trans (h : Traces P sc sc') (h' : Traces P sc' sc'') : Traces P sc sc'' :=
  ⟨h'.actions, h.trace.trans h'.trace⟩

theorem traces_aside (h : sc'.rules.All P) (hc : sc'.calls = sc.calls)
    (hs : sc.session.Aside sc'.session) : Traces P sc sc' := by
  refine ⟨h, ?_⟩
  rw [hc]
  exact Session.Trace.nil.aside hs

theorem actionsFor_traces (h : sc.rules.All P) {implicit : List ImplicitAction}
    (hi : ∀ rule ∈ implicit, P rule.action) (path : ElementPath) (attributes : Attributes) :
    Traces P sc (sc.actionsFor implicit path attributes).1 ∧
      ∀ a ∈ (sc.actionsFor implicit path attributes).2, P a := by
  unfold actionsFor
  cases hm : sc.rules.match? path with
  | some actions => exact ⟨.refl h, h.match? hm⟩
  | none =>
    dsimp only
    split
    · next rule hfind =>
      refine ⟨.refl h, fun a ha => ?_⟩
      rw [List.mem_singleton.1 ha]
      exact hi rule (List.mem_of_find?_eq_some hfind)
    · exact ⟨traces_aside h rfl ⟨rfl, rfl, rfl, rfl⟩, fun a ha => absurd ha List.not_mem_nil⟩

variable (hP : OfEveryInstance P)
include hP

theorem after_traces (h : sc.rules.All P) {call : Call} (hcall : call.session = sc.session)
    (hfollows : call.Follows P sc.calls) : Traces P sc (sc.after call) := by
  have before : Session.Trace P sc.calls sc.session sc.calls call.session := by
    rw [hcall]
    exact .nil
  obtain ⟨rules, remarks, hafter, -, hall⟩ := sc.exists_after_eq call
  rw [hafter]
  exact ⟨hall hP h, (before.call hfollows).aside ⟨rfl, rfl, rfl, rfl⟩⟩

theorem kept_traces : Kept P fun sc _ sc' => sc.rules.All P → Traces P sc sc' where
  refl _ h := .refl h
  trans h h' hsc := (h hsc).trans (h' (h hsc).actions)
  call hcall hfollows hsc := after_traces hP hsc hcall hfollows

end Scene

/-! ### One event -/

namespace Interpreter

open Scene

variable {P : Action → Prop}

/-- All actions that the interpreter has or can come to have are in `P`, and what it keeps for open
elements was handed out by its calls. -/
structure Acts (P : Action → Prop) (i : Interpreter) : Prop where
  rules : i.rules.All P
  implicit : ∀ rule ∈ i.implicit, P rule.action
  opened : ∀ begun ∈ i.openActions, Began P i.calls begun

/-- From one interpreter to the other there is a trace, and the other one acts by `P`, too. -/
structure Traces (P : Action → Prop) (i i' : Interpreter) : Prop where
  acts : i'.Acts P
  trace : Session.Trace P i.calls i.session i'.calls i'.session

variable (hP : OfEveryInstance P)
include hP

theorem startElement_traces {i : Interpreter} (h : i.Acts P) (name : String)
    (attributes : Attributes) : Traces P i (i.startElement name attributes) := by
  cases hs : i.state.isSkipping with
  | true =>
    rw [startElement_skipping hs]
    exact ⟨⟨h.rules, h.implicit, List.forall_mem_cons.2
      ⟨fun v hv => absurd hv List.not_mem_nil, h.opened⟩⟩, .nil⟩
  | false =>
    rw [startElement_eq hs]
    obtain ⟨hfound, hactions⟩ :=
      actionsFor_traces (show i.scene.rules.All P from h.rules) h.implicit (i.path.push name)
        attributes
    rcases ha : i.scene.actionsFor i.implicit (i.path.push name) attributes with ⟨sc, actions⟩
    rw [ha] at hfound hactions
    obtain ⟨-, hbegan, -, hbegun⟩ := (kept_traces hP).beginAll sc name attributes hactions
    dsimp only
    rcases hb : sc.beginAll name attributes actions with ⟨sc', begun, signals⟩
    rw [hb] at hbegan hbegun
    have all := hfound.trans (hbegan hfound.actions)
    exact ⟨⟨all.actions, h.implicit, List.forall_mem_cons.2
      ⟨hbegun, fun other hother => (h.opened other hother).mono all.trace.suffix⟩⟩, all.trace⟩

theorem endElement_traces {i : Interpreter} (h : i.Acts P) (name : String) :
    Traces P i (i.endElement name) := by
  cases hf : i.frames with
  | nil =>
    unfold endElement
    rw [hf]
    exact ⟨⟨h.rules, h.implicit, h.opened⟩, Session.Trace.nil.aside ⟨rfl, rfl, rfl, rfl⟩⟩
  | cons frame outer =>
    have hopen : i.openActions = frame.invocations :: outer.map Frame.invocations := by
      rw [openActions, hf]
      rfl
    have hv : Began P i.calls frame.invocations :=
      h.opened _ (by rw [hopen]; exact List.mem_cons_self)
    obtain ⟨sc, calls, closed, hend⟩ := endElement_kept (kept_traces hP) hf hv name
    have all := closed h.rules
    rw [hend]
    refine ⟨⟨all.actions, h.implicit, fun begun hb => ?_⟩, all.trace⟩
    refine (h.opened begun ?_).mono all.trace.suffix
    rw [hopen]
    exact List.mem_cons_of_mem _ hb

/-- Every event but the end of the document. -/
theorem step_traces {i : Interpreter} (h : i.Acts P) {e : DocumentEvent}
    (he : e ≠ .endDocument) : Traces P i (i.step e) := by
  have flat : ∀ {e : DocumentEvent}, e.isFlat = true → (i.step e).calls = i.calls →
      i.session.Aside (i.step e).session → Traces P i (i.step e) := by
    intro e hflat hcalls hsession
    obtain ⟨hrules, himplicit, -, hopen, -⟩ := i.step_flat hflat
    refine ⟨⟨by rw [hrules]; exact h.rules, by rw [himplicit]; exact h.implicit, ?_⟩, ?_⟩
    · rw [hopen, hcalls]
      exact h.opened
    · rw [hcalls]
      exact Session.Trace.nil.aside hsession
  cases e with
  | startElement name attributes => exact startElement_traces hP h name attributes
  | endElement name => exact endElement_traces hP h name
  | endDocument => exact absurd rfl he
  | characters text =>
    have hkept : (i.characters text).scene = i.scene := by
      obtain ⟨frames, htext, -⟩ := i.exists_characters_eq text
      rw [htext]
      rfl
    have hsession : (i.characters text).session = i.session := congrArg Scene.session hkept
    refine flat rfl (congrArg Scene.calls hkept) ?_
    show i.session.Aside (i.characters text).session
    rw [hsession]
    exact ⟨rfl, rfl, rfl, rfl⟩
  | _ => exact flat rfl rfl ⟨rfl, rfl, rfl, rfl⟩

/-- Whatever the interpreter is told, its session has a trace. -/
theorem run_traces {i : Interpreter} (h : i.Acts P) {es : List DocumentEvent}
    (he : .endDocument ∉ es) : Traces P i (i.run es) := by
  induction es generalizing i with
  | nil => exact ⟨h, .nil⟩
  | cons e es ih =>
    have hhead : e ≠ .endDocument := (List.ne_of_not_mem_cons he).symm
    have hrest : .endDocument ∉ es := List.not_mem_of_not_mem_cons he
    have first := step_traces hP h hhead
    have later := ih first.acts hrest
    rw [run_cons]
    exact ⟨later.acts, first.trace.trans later.trace⟩

end Interpreter

namespace Configurator

variable {P : Action → Prop}

/-- A session acts by what holds of the built-in actions and of all that its registry gives. -/
theorem acts_of_all (c : Configurator) (hP : OfEveryInstance P)
    (hb : ∀ entry ∈ Actions.builtins, P entry.1) (hc : c.actions.All P) (g : Graph) :
    (c.interpreter g).Acts P := by
  refine ⟨Actions.all_defaultStore hP hb hc, ?_, fun begun hb => absurd hb List.not_mem_nil⟩
  intro rule hrule
  rcases List.mem_cons.1 hrule with rfl | hrule
  · exact hb (Actions.nestedComponent, none) (by simp [Actions.builtins])
  · rw [List.mem_singleton.1 hrule]
    exact hb (Actions.nestedProperty, none) (by simp [Actions.builtins])

theorem acts_interpreter (c : Configurator) (hP : OfEveryInstance P)
    (hb : ∀ entry ∈ Actions.builtins, P entry.1) (hc : c.actions = Actions.registry) (g : Graph) :
    (c.interpreter g).Acts P := by
  refine c.acts_of_all hP hb ?_ g
  rw [hc]
  exact Actions.all_registry hb

end Configurator

/-- An instance of one of the built-in actions. -/
def Action.Builtin (a : Action) : Prop :=
  ∃ entry ∈ Actions.builtins, ∃ n, a = { entry.1 with instanceId := n }

theorem Action.ofEveryInstance_builtin : OfEveryInstance Action.Builtin := by
  rintro _ n ⟨entry, hentry, m, rfl⟩
  exact ⟨entry, hentry, n, rfl⟩

theorem Configurator.acts_builtin (c : Configurator) (hc : c.actions = Actions.registry)
    (g : Graph) : (c.interpreter g).Acts Action.Builtin :=
  c.acts_interpreter Action.ofEveryInstance_builtin
    (fun entry hentry => ⟨entry, hentry, entry.1.instanceId, rfl⟩) hc g

end LogConfig
