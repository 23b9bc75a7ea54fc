import LogConfig.Proofs.Dispatch.Walk

/-
  The phases of one element, as the interpreter and as the walk call them. Each function of the
  interpreter that calls phases does to its scene what the walk does to the same scene
  (`beginActions_eq`, `bodyActions_eq`, `foldl_finishAction`, `closeFrame_eq`); beside that it only
  moves the skip state, one signal after the other. The last section says what state a list of
  signals comes to.
-/

namespace LogConfig
namespace Interpreter

/-- What the walk sees of an interpreter. -/
def scene (i : Interpreter) : Scene := ⟨i.rules, i.session, i.calls⟩

/-- The interpreter with the scene changed. -/
def withScene (i : Interpreter) (sc : Scene) : Interpreter :=
  { i with rules := sc.rules, session := sc.session, calls := sc.calls }

section Frame

variable (i : Interpreter) (sc : Scene)

@[simp] theorem withScene_scene : i.withScene i.scene = i := rfl

@[simp] theorem scene_withScene : (i.withScene sc).scene = sc := rfl

@[simp] theorem withScene_withScene (sc' : Scene) :
    (i.withScene sc).withScene sc' = i.withScene sc' := rfl

@[simp] theorem path_withScene : (i.withScene sc).path = i.path := rfl

@[simp] theorem state_withScene : (i.withScene sc).state = i.state := rfl

@[simp] theorem frames_withScene : (i.withScene sc).frames = i.frames := rfl

@[simp] theorem implicit_withScene : (i.withScene sc).implicit = i.implicit := rfl

end Frame

/-! ### Runs -/

theorem run_nil (i : Interpreter) : i.run [] = i := rfl

theorem run_cons (i : Interpreter) (e : DocumentEvent) (es : List DocumentEvent) :
    i.run (e :: es) = (i.step e).run es := rfl

theorem run_append (i : Interpreter) (es fs : List DocumentEvent) :
    i.run (es ++ fs) = (i.run es).run fs := List.foldl_append ..

/-! ### One phase -/

theorem actionsFor_eq (i : Interpreter) (attributes : Attributes) :
    i.actionsFor attributes =
      (i.withScene (i.scene.actionsFor i.implicit i.path attributes).1,
        (i.scene.actionsFor i.implicit i.path attributes).2) := by
  unfold actionsFor Scene.actionsFor
  simp only [scene]
  cases hm : i.rules.match? i.path with
  | some actions => rfl
  | none =>
    dsimp only
    cases hf : i.implicit.find? fun rule => rule.applies i.path attributes i.session with
    | some rule => rfl
    | none => rfl

theorem installRule_eq (i : Interpreter) (request : ElementPath × String) :
    i.installRule request = i.withScene (i.scene.installRule request) := by
  unfold installRule Scene.installRule
  simp only [scene]
  rcases i.rules.addByName request.1 request.2 with ⟨rules, e | _⟩
  · rfl
  · rfl

theorem foldl_installRule (requests : List (ElementPath × String)) (i : Interpreter) :
    requests.foldl installRule i = i.withScene (requests.foldl Scene.installRule i.scene) := by
  induction requests generalizing i with
  | nil => rfl
  | cons request rest ih =>
    rw [List.foldl_cons, ih, installRule_eq]
    rfl

theorem installRules_eq (i : Interpreter) :
    i.installRules = i.withScene (i.session.ruleRequests.foldl Scene.installRule
      { i.scene with session := i.session.dropRuleRequests }) := by
  unfold installRules
  rw [foldl_installRule]
  rfl

/-- The state after a begin phase that gave a signal. -/
def afterBegin (path : ElementPath) (s : DispatchState) : Signal → DispatchState
  | .skipSiblings => .skippingSiblings path.parent
  | _ => s.skipChildren path

/-- The state after a body or end phase that gave a signal. -/
def afterLate (path : ElementPath) (s : DispatchState) : Signal → DispatchState
  | .skipSiblings => if s.isSkipping then s else .skippingSiblings path.parent
  | _ => s

theorem beginAction_ok {i : Interpreter} {name : String} {attributes : Attributes} {a : Action}
    {data : Option ActionData} {s : Session} (h : a.begin name attributes i.session = .ok data s) :
    beginAction name attributes i a =
      (i.withScene ((i.scene.note (.begin a name attributes i.session)).settle a "begin" none s),
        some ⟨a, data⟩) := by
  unfold beginAction
  simp only [note, h, installRules_eq]
  rfl

theorem beginAction_error {i : Interpreter} {name : String} {attributes : Attributes} {a : Action}
    {signal : Signal} {s : Session} (h : a.begin name attributes i.session = .error signal s) :
    beginAction name attributes i a =
      ({ i.withScene ((i.scene.note (.begin a name attributes i.session)).settle a "begin"
          (some signal) s) with state := afterBegin i.path i.state signal }, none) := by
  unfold beginAction
  simp only [note, h, installRules_eq]
  cases signal with
  | skipChildren => rfl
  | skipSiblings => rfl
  | failed e => rfl

/-- The begin phases of an element are those of the walk; their signals move the state. -/
theorem beginActions_eq (name : String) (attributes : Attributes) (i : Interpreter)
    (actions : List Action) :
    beginActions name attributes i actions =
      let (sc, begun, signals) := i.scene.beginAll name attributes actions
      ({ i.withScene sc with state := signals.foldl (afterBegin i.path) i.state }, begun) := by
  induction actions generalizing i with
  | nil => rfl
  | cons a rest ih =>
    unfold beginActions Scene.beginAll
    cases h : a.begin name attributes i.session with
    | ok data s =>
      simp only [beginAction_ok h, ih, show i.scene.session = i.session from rfl, h]
      rfl
    | error signal s =>
      simp only [beginAction_error h, ih, show i.scene.session = i.session from rfl, h]
      rfl

theorem bodyAction_ok {i : Interpreter} {name text : String} {v : Invocation} {s : Session}
    {data : Option ActionData}
    (h : v.action.body name text v.data i.session = (.ok () s, data)) :
    bodyAction name text i v =
      (i.withScene ((i.scene.note (.body v.action name text v.data i.session)).settle v.action
        "body" none s), { v with data }) := by
  unfold bodyAction
  simp only [note, h, installRules_eq]
  rfl

theorem bodyAction_error {i : Interpreter} {name text : String} {v : Invocation} {signal : Signal}
    {s : Session} {data : Option ActionData}
    (h : v.action.body name text v.data i.session = (.error signal s, data)) :
    bodyAction name text i v =
      ({ i.withScene ((i.scene.note (.body v.action name text v.data i.session)).settle v.action
          "body" (some signal) s) with state := afterLate i.path i.state signal },
        { v with data }) := by
  unfold bodyAction
  simp only [note, h, installRules_eq]
  cases signal with
  | skipChildren => rfl
  | skipSiblings => cases hs : i.state.isSkipping <;> simp [onLateSignal, afterLate, hs] <;> rfl
  | failed e => rfl

/-- The body phases of an element are those of the walk; their signals move the state. -/
theorem bodyActions_eq (name text : String) (i : Interpreter) (begun : List Invocation) :
    bodyActions name text i begun =
      let (sc, begun, signals) := i.scene.bodyAll name text begun
      ({ i.withScene sc with state := signals.foldl (afterLate i.path) i.state }, begun) := by
  induction begun generalizing i with
  | nil => rfl
  | cons v rest ih =>
    unfold bodyActions Scene.bodyAll
    rcases h : v.action.body name text v.data i.session with ⟨⟨⟩ | ⟨signal, s⟩, data⟩
    · simp only [bodyAction_ok h, ih, show i.scene.session = i.session from rfl, h]
      rfl
    · simp only [bodyAction_error h, ih, show i.scene.session = i.session from rfl, h]
      rfl

theorem finishAction_ok {i : Interpreter} {name : String} {v : Invocation} {s : Session}
    (h : v.action.finish name v.data i.session = .ok () s) :
    finishAction name i v =
      i.withScene ((i.scene.note (.finish v.action name v.data i.session)).settle v.action "end"
        none s) := by
  unfold finishAction
  simp only [note, h, installRules_eq]
  rfl

theorem finishAction_error {i : Interpreter} {name : String} {v : Invocation} {signal : Signal}
    {s : Session} (h : v.action.finish name v.data i.session = .error signal s) :
    finishAction name i v =
      { i.withScene ((i.scene.note (.finish v.action name v.data i.session)).settle v.action "end"
          (some signal) s) with state := afterLate i.path i.state signal } := by
  unfold finishAction
  simp only [note, h, installRules_eq]
  cases signal with
  | skipChildren => rfl
  | skipSiblings => cases hs : i.state.isSkipping <;> simp [onLateSignal, afterLate, hs] <;> rfl
  | failed e => rfl

/-- The end phases of an element are those of the walk; their signals move the state. -/
theorem foldl_finishAction (name : String) (i : Interpreter) (begun : List Invocation) :
    begun.foldl (finishAction name) i =
      let (sc, signals) := i.scene.finishAll name begun
      { i.withScene sc with state := signals.foldl (afterLate i.path) i.state } := by
  induction begun generalizing i with
  | nil => rfl
  | cons v rest ih =>
    rw [List.foldl_cons]
    unfold Scene.finishAll
    cases h : v.action.finish name v.data i.session with
    | ok _ s =>
      simp only [finishAction_ok h, ih, show i.scene.session = i.session from rfl, h]
      rfl
    | error signal s =>
      simp only [finishAction_error h, ih, show i.scene.session = i.session from rfl, h]
      rfl

/-- Closing an element is closing it in the walk; the signals of its phases move the state. -/
theorem closeFrame_eq (i : Interpreter) (name : String) (frame : Frame) :
    i.closeFrame name frame true =
      let (sc, signals) := i.scene.close name frame.text frame.invocations
      { i.withScene sc with state := signals.foldl (afterLate i.path) i.state } := by
  unfold closeFrame Scene.close
  by_cases h : Text.trim frame.text = ""
  · simp [h, foldl_finishAction]
  · simp only [h, bodyActions_eq, foldl_finishAction, Bool.true_and, ne_eq, not_false_eq_true,
      decide_true, if_true, if_false, List.foldl_append]
    rfl

/-- An element whose text is not delivered only ends. -/
theorem closeFrame_false (i : Interpreter) (name : String) (frame : Frame) :
    i.closeFrame name frame false =
      let (sc, signals) := i.scene.finishAll name frame.invocations
      { i.withScene sc with state := signals.foldl (afterLate i.path) i.state } := by
  unfold closeFrame
  simp [foldl_finishAction]

/-! ### The signals of all phases together -/

theorem foldl_afterBegin_skippingSiblings (path : ElementPath) (signals : List Signal) :
    signals.foldl (afterBegin path) (.skippingSiblings path.parent) =
      .skippingSiblings path.parent := by
  induction signals with
  | nil => rfl
  | cons signal rest ih =>
    rw [List.foldl_cons]
    cases signal with
    | skipChildren => exact ih
    | skipSiblings => exact ih
    | failed e => exact ih

theorem foldl_afterBegin_skippingChildren (path : ElementPath) (signals : List Signal) :
    signals.foldl (afterBegin path) (.skippingChildren path) =
      if .skipSiblings ∈ signals then .skippingSiblings path.parent
      else .skippingChildren path := by
  induction signals with
  | nil => rfl
  | cons signal rest ih =>
    rw [List.foldl_cons]
    cases signal with
    | skipChildren => simpa [afterBegin, DispatchState.skipChildren] using ih
    | skipSiblings =>
      simpa [afterBegin, DispatchState.skipChildren] using
        foldl_afterBegin_skippingSiblings path rest
    | failed e => simpa [afterBegin, DispatchState.skipChildren] using ih

/-- Of the signals of the begin phases one that asks to skip siblings counts most. -/
theorem foldl_afterBegin_parsing (path : ElementPath) (signals : List Signal) :
    signals.foldl (afterBegin path) .parsing =
      if .skipSiblings ∈ signals then .skippingSiblings path.parent
      else if signals = [] then .parsing
      else .skippingChildren path := by
  cases signals with
  | nil => rfl
  | cons signal rest =>
    rw [List.foldl_cons]
    have hchildren := foldl_afterBegin_skippingChildren path rest
    cases signal with
    | skipChildren => simpa [afterBegin, DispatchState.skipChildren] using hchildren
    | skipSiblings =>
      simpa [afterBegin, DispatchState.skipChildren] using
        foldl_afterBegin_skippingSiblings path rest
    | failed e => simpa [afterBegin, DispatchState.skipChildren] using hchildren

theorem foldl_afterLate_skipping (path : ElementPath) {s : DispatchState}
    (hs : s.isSkipping = true) (signals : List Signal) :
    signals.foldl (afterLate path) s = s := by
  induction signals with
  | nil => rfl
  | cons signal rest ih =>
    rw [List.foldl_cons]
    cases signal with
    | skipChildren => exact ih
    | skipSiblings => simpa [afterLate, hs] using ih
    | failed e => exact ih

/-- Of the signals of later phases only one that asks to skip siblings counts. -/
theorem foldl_afterLate_parsing (path : ElementPath) (signals : List Signal) :
    signals.foldl (afterLate path) .parsing =
      if .skipSiblings ∈ signals then .skippingSiblings path.parent else .parsing := by
  induction signals with
  | nil => rfl
  | cons signal rest ih =>
    rw [List.foldl_cons]
    cases signal with
    | skipChildren => simpa [afterLate] using ih
    | skipSiblings =>
      simpa [afterLate, DispatchState.isSkipping, DispatchState.marker?] using
        foldl_afterLate_skipping path (s := .skippingSiblings path.parent) rfl rest
    | failed e => simpa [afterLate] using ih

end Interpreter
end LogConfig
