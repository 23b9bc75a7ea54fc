import LogConfig.Proofs.Dispatch.Phases

/-
  The interpreter refines the walk (`run_events_eq_walk`): fed with the events of a document tree
  while it is not skipping, it calls the same phases with the same arguments in the same sessions,
  and leaves the same session and rules.

  The induction is on the tree. Two facts carry it. While a skip is on, a whole node is passed
  over without a trace, because every path inside it is longer than the marker (`run_skipped`).
  And inside an element that is being dispatched, nodes add their text to the frame of the element
  and leave the interpreter either parsing or skipping up to the end of this element
  (`runAsVisited`), which is where its own end event takes the skip off.
-/

namespace LogConfig
namespace Interpreter

/-! ### Skipped nodes -/

theorem closeFrame_empty (i : Interpreter) (name : String) (delivers : Bool) :
    i.closeFrame name {} delivers = i := by
  cases delivers with
  | true => rw [closeFrame_eq]; rfl
  | false => rw [closeFrame_false]; rfl

/-- A skipped element leaves only its name in the path and a frame without actions. -/
theorem startElement_skipping {i : Interpreter} (hs : i.state.isSkipping = true) (name : String)
    (attributes : Attributes) :
    i.startElement name attributes =
      { i with path := i.path.push name, frames := {} :: i.frames } := by
  have hidle : i.state ≠ .idle := fun h => by rw [h] at hs; cases hs
  simp [startElement, hs, hidle]

mutual

/-- While a skip is on, a node inside the element that ends it changes nothing. -/
theorem run_skipped (i : Interpreter) (marker : ElementPath) (hm : i.state.marker? = some marker)
    (hp : marker.size ≤ i.path.size) (node : Node) : i.run node.events = i := by
  have hskip : i.state.isSkipping = true := by simp [DispatchState.isSkipping, hm]
  match node with
  | .text s =>
    rw [Node.events, run_cons, run_nil]
    simp [step, characters, hskip]
  | .element name attributes children =>
    let inner : Interpreter := { i with path := i.path.push name, frames := {} :: i.frames }
    have hstart : i.step (.startElement name attributes) = inner :=
      startElement_skipping hskip name attributes
    have hinside : inner.run (Node.eventsOfAll children) = inner :=
      run_skippedAll inner marker hm (by simp only [inner, ElementPath.size_push]; omega) children
    -- The path of the closing element is longer than the marker, so the skip goes on.
    have hne : marker ≠ i.path.push name := fun h => by
      rw [h, ElementPath.size_push] at hp; omega
    have hend : inner.step (.endElement name) = i := by
      simp [step, endElement, inner, hm, hne, hskip, closeFrame_empty]
    rw [Node.events, run_cons, run_append, hstart, hinside, run_cons, run_nil, hend]

theorem run_skippedAll (i : Interpreter) (marker : ElementPath)
    (hm : i.state.marker? = some marker) (hp : marker.size ≤ i.path.size) (nodes : List Node) :
    i.run (Node.eventsOfAll nodes) = i := by
  match nodes with
  | [] => rfl
  | node :: rest =>
    rw [Node.eventsOfAll, run_append, run_skipped i marker hm hp node,
      run_skippedAll i marker hm hp rest]

end

/-! ### Visited nodes -/

/-- The interpreter inside an element whose actions have begun. -/
def inside (i : Interpreter) (name : String) (sc : Scene) (begun : List Invocation)
    (text : String) (s : DispatchState) : Interpreter :=
  { i.withScene sc with
    path := i.path.push name
    frames := { invocations := begun, text } :: i.frames
    state := s }

@[simp] theorem scene_inside (i : Interpreter) (name : String) (sc : Scene)
    (begun : List Invocation) (text : String) (s : DispatchState) :
    (i.inside name sc begun text s).scene = sc := rfl

@[simp] theorem path_inside (i : Interpreter) (name : String) (sc : Scene)
    (begun : List Invocation) (text : String) (s : DispatchState) :
    (i.inside name sc begun text s).path = i.path.push name := rfl

@[simp] theorem implicit_inside (i : Interpreter) (name : String) (sc : Scene)
    (begun : List Invocation) (text : String) (s : DispatchState) :
    (i.inside name sc begun text s).implicit = i.implicit := rfl

/-- The interpreter after a visit inside the element at its path. -/
def afterVisit (i : Interpreter) (v : Visit) : Interpreter :=
  { i.withScene v.scene with
    state := if v.dropsRest then .skippingSiblings i.path else .parsing }

/-- The interpreter with text added to the innermost open element. -/
def addText (i : Interpreter) (text : String) : Interpreter :=
  { i with frames := i.frames.modifyHead fun frame => { frame with text := frame.text ++ text } }

theorem addText_addText (i : Interpreter) (s t : String) :
    (i.addText s).addText t = i.addText (s ++ t) := by
  unfold addText
  cases hf : i.frames with
  | nil => rfl
  | cons frame outer => simp [String.append_assoc]

theorem addText_empty (i : Interpreter) : i.addText "" = i := by
  obtain ⟨rules, implicit, session, path, frames, state, calls⟩ := i
  cases frames with
  | nil => rfl
  | cons frame outer => simp [addText]

theorem addText_afterVisit (i : Interpreter) (v : Visit) (s : String) :
    (i.addText s).afterVisit v = (i.afterVisit v).addText s := rfl

theorem afterVisit_afterVisit (i : Interpreter) (v w : Visit) :
    (i.afterVisit v).afterVisit w = i.afterVisit w := rfl

theorem afterVisit_text {i : Interpreter} (hs : i.state = .parsing) (s : String) :
    i.afterVisit { scene := i.scene, text := s } = i := by
  rw [afterVisit, withScene_scene]
  simp [← hs]

theorem characters_eq {i : Interpreter} (hs : i.state = .parsing) (s : String) :
    i.characters s = i.addText s := by
  have hdispatched : i.state.isSkipping = false := by rw [hs]; rfl
  unfold characters
  rw [hdispatched]
  obtain ⟨rules, implicit, session, path, frames, state, calls⟩ := i
  cases frames with
  | nil => rfl
  | cons frame outer => rfl

/-- The start of an element that is not skipped. -/
theorem startElement_eq {i : Interpreter} (hs : i.state.isSkipping = false) (name : String)
    (attributes : Attributes) :
    i.startElement name attributes =
      let (sc, actions) := i.scene.actionsFor i.implicit (i.path.push name) attributes
      let (sc, begun, signals) := sc.beginAll name attributes actions
      i.inside name sc begun "" (signals.foldl (afterBegin (i.path.push name)) .parsing) := by
  have hparsing : (if i.state = DispatchState.idle then .parsing else i.state) =
      DispatchState.parsing := by
    cases h : i.state with
    | idle => rfl
    | parsing => rfl
    | skippingChildren marker => simp [h, DispatchState.isSkipping, DispatchState.marker?] at hs
    | skippingSiblings marker => simp [h, DispatchState.isSkipping, DispatchState.marker?] at hs
  unfold startElement
  simp only [hparsing, show DispatchState.parsing.isSkipping = false from rfl, actionsFor_eq,
    beginActions_eq]
  rfl

/-- The end of an element that is dispatched, or at which a skip ends. -/
theorem endElement_inside (i : Interpreter) (name : String) (sc : Scene)
    (begun : List Invocation) (text : String) {s : DispatchState}
    (hs : s = .parsing ∨ s.marker? = some (i.path.push name)) :
    (i.inside name sc begun text s).endElement name =
      let (sc, late) := sc.close name text begun
      i.afterVisit { scene := sc, dropsRest := .skipSiblings ∈ late } := by
  have hdelivers : (decide (s.marker? = some (i.path.push name)) || !s.isSkipping) = true := by
    rcases hs with h | h
    · simp [h, DispatchState.isSkipping, DispatchState.marker?]
    · simp [h]
  have hstate : (if decide (s.marker? = some (i.path.push name)) = true then .parsing else s) =
      DispatchState.parsing := by
    rcases hs with h | h
    · simp [h]
    · simp [h]
  unfold endElement inside
  simp only [hdelivers, hstate, closeFrame_eq, foldl_afterLate_parsing, path_withScene,
    ElementPath.parent_push]
  simp only [afterVisit, withScene, scene, decide_eq_true_eq]
  obtain ⟨rules, session, calls⟩ := sc
  rfl

/-- The end of an element that asked to skip its siblings: the skip is anchored at the parent, so
it goes on. -/
theorem endElement_inside_skipping (i : Interpreter) (name : String) (sc : Scene)
    (begun : List Invocation) (text : String) :
    (i.inside name sc begun text (.skippingSiblings i.path)).endElement name =
      i.afterVisit { scene := (sc.finishAll name begun).1, dropsRest := true } := by
  have hne : i.path ≠ i.path.push name := fun h => by
    have := congrArg ElementPath.size h
    simp at this
  have hskip : (DispatchState.skippingSiblings i.path).isSkipping = true := rfl
  unfold endElement inside
  simp only [DispatchState.marker?, Option.some.injEq, hne, decide_false, Bool.false_eq_true,
    if_false, hskip, Bool.not_true, Bool.or_self, closeFrame_false,
    foldl_afterLate_skipping _ hskip, path_withScene, ElementPath.parent_push]
  rfl

/-- Inside an element that is dispatched, the events of these nodes do what their visit does. -/
def RunAsVisited (nodes : List Node) : Prop :=
  ∀ i : Interpreter, i.state = .parsing →
    let v := walkAll i.implicit i.path i.scene nodes
    i.run (Node.eventsOfAll nodes) = (i.afterVisit v).addText v.text

/-- An element does what its visit does, if its children do. -/
theorem run_element (i : Interpreter) (hs : i.state.isSkipping = false) (name : String)
    (attributes : Attributes) (children : List Node) (hc : RunAsVisited children) :
    i.run (Node.element name attributes children).events =
      i.afterVisit (walk i.implicit i.path i.scene (.element name attributes children)) := by
  rw [Node.events, run_cons, run_append, run_cons, run_nil, walk]
  simp only [step, startElement_eq hs]
  rcases i.scene.actionsFor i.implicit (i.path.push name) attributes with ⟨sc, actions⟩
  rcases sc.beginAll name attributes actions with ⟨sc', begun, signals⟩
  dsimp only
  rw [foldl_afterBegin_parsing, ElementPath.parent_push]
  by_cases hsib : Signal.skipSiblings ∈ signals
  · simp only [hsib, if_true]
    rw [run_skippedAll _ i.path rfl (by simp [inside]) children, endElement_inside_skipping]
  · by_cases hnil : signals = []
    · simp only [hnil, List.not_mem_nil, if_false, if_true, ne_eq, not_true_eq_false]
      rw [hc _ rfl]
      simp only [scene_inside, path_inside, implicit_inside]
      -- The children may have left a skip that is anchored here; the end takes it off.
      have hresumes : ∀ v : Visit, ((i.inside name sc' begun "" .parsing).afterVisit v).addText
          v.text = i.inside name v.scene begun v.text
            (if v.dropsRest then .skippingSiblings (i.path.push name) else .parsing) := by
        intro v
        simp [addText, afterVisit, inside, withScene]
      rw [hresumes, endElement_inside]
      split
      · exact .inr rfl
      · exact .inl rfl
    · simp only [hsib, hnil, if_false, ne_eq, not_false_eq_true, if_true]
      rw [run_skippedAll _ (i.path.push name) rfl (by simp [inside]) children,
        endElement_inside _ _ _ _ _ (.inr rfl)]
      rfl

theorem text_walk_element (implicit : List ImplicitAction) (path : ElementPath) (sc : Scene)
    (name : String) (attributes : Attributes) (children : List Node) :
    (walk implicit path sc (.element name attributes children)).text = "" := by
  rw [walk]
  dsimp only
  split
  · rfl
  · split <;> rfl

mutual

/-- Inside an element that is dispatched, the events of a node do what its visit does. -/
theorem run_node (i : Interpreter) (hs : i.state = .parsing) (node : Node) :
    i.run node.events =
      let v := walk i.implicit i.path i.scene node
      (i.afterVisit v).addText v.text := by
  match node with
  | .text s =>
    rw [Node.events, run_cons, run_nil, walk]
    dsimp only
    rw [afterVisit_text hs s]
    exact characters_eq hs s
  | .element name attributes children =>
    rw [run_element i (by rw [hs]; rfl) name attributes children (runAsVisited children)]
    dsimp only
    rw [text_walk_element, addText_empty]

theorem runAsVisited (nodes : List Node) : RunAsVisited nodes := by
  intro i hs
  match nodes with
  | [] =>
    rw [Node.eventsOfAll, run_nil, walkAll]
    dsimp only
    rw [addText_empty, afterVisit_text hs ""]
  | node :: rest =>
    rw [Node.eventsOfAll, run_append, run_node i hs node, walkAll]
    dsimp only
    generalize walk i.implicit i.path i.scene node = first
    cases hd : first.dropsRest with
    | true =>
      have hmarker : ((i.afterVisit first).addText first.text).state.marker? = some i.path := by
        simp [addText, afterVisit, hd, DispatchState.marker?]
      rw [run_skippedAll _ i.path hmarker (Nat.le_refl _) rest]
      rfl
    | false =>
      have hparsing : ((i.afterVisit first).addText first.text).state = .parsing := by
        simp [addText, afterVisit, hd]
      rw [runAsVisited rest _ hparsing, addText_afterVisit,
        afterVisit_afterVisit, addText_addText]
      rfl

end

/-- Dispatch of a tree: the events of an element with all it holds, fed to an interpreter that
is not skipping, call exactly the phases that the walk calls, in the same sessions, and leave the
session and the rules that the walk leaves. Path and open elements are as before; a skip is on
afterwards just when the visit drops what follows, and it lasts up to the end of the parent. -/
theorem run_events_eq_walk (i : Interpreter) (hs : i.state.isSkipping = false) (name : String)
    (attributes : Attributes) (children : List Node) :
    i.run (Node.element name attributes children).events =
      i.afterVisit (walk i.implicit i.path i.scene (.element name attributes children)) :=
  run_element i hs name attributes children (runAsVisited children)

/-- An action of the inner of two elements of one name asks to skip siblings: the other action of
the element ends, the text after it is dropped, and the outer element gets the text before it. -/
theorem run_events_eq_walk_skipSiblings :
    let keep : Action := { name := "Keep", begin := fun _ _ => pure none }
    let stop : Action := { name := "Stop", begin := fun _ _ => throw .skipSiblings }
    let i : Interpreter :=
      { rules := { rules := [(⟨["a"]⟩, [keep]), (⟨["a", "a"]⟩, [keep, stop])] }, session := {} }
    let tree := [Node.text "x", .element "a" [] [.element "a" [] []], .text "y"]
    i.state.isSkipping = false ∧
      (walk i.implicit i.path i.scene (.element "a" [] tree)).scene.calls.length = 6 ∧
      i.run (Node.element "a" [] tree).events =
        i.afterVisit (walk i.implicit i.path i.scene (.element "a" [] tree)) := by
  intro keep stop i tree
  refine ⟨rfl, ?_, run_events_eq_walk i rfl "a" [] tree⟩
  decide +kernel

end Interpreter
end LogConfig
