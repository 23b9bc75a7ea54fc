import LogConfig.Proofs.Dispatch.Skips

/-
  Documents one after the other. The record of the phases called is never read, so an interpreter
  that called some before does what it does without them (`run_recalling`). At the end of a
  document nothing else is left of it than the rules and the session; the next document is
  dispatched as on an interpreter that was just made with them (`run_fresh`).
-/

namespace LogConfig

/-! ### Phases called before -/

namespace Scene

/-- The scene where these phases were called before. -/
def recalling (earlier : List Call) (sc : Scene) : Scene := { sc with calls := sc.calls ++ earlier }

variable (earlier : List Call)

theorem installRule_recalling (sc : Scene) (request : ElementPath × String) :
    (sc.recalling earlier).installRule request = (sc.installRule request).recalling earlier := by
  unfold installRule recalling
  dsimp only
  split
  · rfl
  · rfl

theorem installRules_recalling (sc : Scene) (requests : List (ElementPath × String)) :
    requests.foldl installRule (sc.recalling earlier) =
      (requests.foldl installRule sc).recalling earlier := by
  induction requests generalizing sc with
  | nil => rfl
  | cons request rest ih => rw [List.foldl_cons, List.foldl_cons, installRule_recalling, ih]

theorem after_recalling (sc : Scene) (call : Call) :
    (sc.recalling earlier).after call = (sc.after call).recalling earlier := by
  unfold after settle
  rw [← installRules_recalling]
  rfl

theorem callAll_recalling {κ : Type} (next : κ → Session → Call) (sc : Scene) (ks : List κ) :
    (sc.recalling earlier).callAll next ks =
      ((sc.callAll next ks).1.recalling earlier, (sc.callAll next ks).2) := by
  induction ks generalizing sc with
  | nil => rfl
  | cons k rest ih =>
    rw [callAll_cons, callAll_cons, after_recalling, ih]
    rfl

theorem actionsFor_recalling (implicit : List ImplicitAction) (path : ElementPath)
    (attributes : Attributes) (sc : Scene) :
    (sc.recalling earlier).actionsFor implicit path attributes =
      ((sc.actionsFor implicit path attributes).1.recalling earlier,
        (sc.actionsFor implicit path attributes).2) := by
  unfold actionsFor recalling
  dsimp only
  split
  · rfl
  · split
    · rfl
    · rfl

theorem beginAll_recalling (name : String) (attributes : Attributes) (sc : Scene)
    (actions : List Action) :
    (sc.recalling earlier).beginAll name attributes actions =
      ((sc.beginAll name attributes actions).1.recalling earlier,
        (sc.beginAll name attributes actions).2) := by
  rw [beginAll_eq, beginAll_eq, beginCalls, callAll_recalling]

theorem bodyAll_recalling (name text : String) (sc : Scene) (begun : List Invocation) :
    (sc.recalling earlier).bodyAll name text begun =
      ((sc.bodyAll name text begun).1.recalling earlier, (sc.bodyAll name text begun).2) := by
  rw [bodyAll_eq, bodyAll_eq, bodyCalls, callAll_recalling]

theorem finishAll_recalling (name : String) (sc : Scene) (begun : List Invocation) :
    (sc.recalling earlier).finishAll name begun =
      ((sc.finishAll name begun).1.recalling earlier, (sc.finishAll name begun).2) := by
  rw [finishAll_eq, finishAll_eq, endCalls, callAll_recalling]

theorem close_recalling (name text : String) (sc : Scene) (begun : List Invocation) :
    (sc.recalling earlier).close name text begun =
      ((sc.close name text begun).1.recalling earlier, (sc.close name text begun).2) := by
  unfold close
  split
  · exact finishAll_recalling earlier name sc begun
  · rw [bodyAll_recalling]
    simp only [finishAll_recalling]

end Scene

namespace Interpreter

/-- The interpreter where these phases were called before. -/
def recalling (earlier : List Call) (i : Interpreter) : Interpreter :=
  { i with calls := i.calls ++ earlier }

variable (earlier : List Call) (i : Interpreter)

theorem scene_recalling : (i.recalling earlier).scene = i.scene.recalling earlier := rfl

theorem closeFrame_recalling (name : String) (frame : Frame) (delivers : Bool) :
    (i.recalling earlier).closeFrame name frame delivers =
      (i.closeFrame name frame delivers).recalling earlier := by
  cases delivers with
  | true =>
    rw [closeFrame_eq, closeFrame_eq, scene_recalling, Scene.close_recalling]
    rfl
  | false =>
    rw [closeFrame_false, closeFrame_false, scene_recalling, Scene.finishAll_recalling]
    rfl

theorem startElement_recalling (name : String) (attributes : Attributes) :
    (i.recalling earlier).startElement name attributes =
      (i.startElement name attributes).recalling earlier := by
  cases hs : i.state.isSkipping with
  | true =>
    have hs' : (i.recalling earlier).state.isSkipping = true := hs
    rw [startElement_skipping hs, startElement_skipping hs']
    rfl
  | false =>
    have hs' : (i.recalling earlier).state.isSkipping = false := hs
    rw [startElement_eq hs, startElement_eq hs', scene_recalling,
      show (i.recalling earlier).implicit = i.implicit from rfl,
      show (i.recalling earlier).path = i.path from rfl, Scene.actionsFor_recalling]
    simp only [Scene.beginAll_recalling]
    rfl

theorem endElement_recalling (name : String) :
    (i.recalling earlier).endElement name = (i.endElement name).recalling earlier := by
  obtain ⟨rules, implicit, session, path, frames, state, calls⟩ := i
  cases frames with
  | nil => rfl
  | cons frame outer =>
    -- the frame is taken off before its actions are called, and the path is shortened after that
    let popped : Interpreter :=
      { rules, implicit, session, path, frames := outer, calls
        state := if decide (state.marker? = some path) then .parsing else state }
    exact congrArg (fun closed => { closed with path := closed.path.parent })
      (closeFrame_recalling earlier popped name frame
        (decide (state.marker? = some path) || !state.isSkipping))

theorem closeElements_recalling (n : Nat) :
    closeElements n (i.recalling earlier) = (closeElements n i).recalling earlier := by
  induction n generalizing i with
  | zero => rfl
  | succ n ih =>
    unfold closeElements
    rw [show (i.recalling earlier).path = i.path from rfl]
    cases i.path.last? with
    | none => rfl
    | some tag =>
      dsimp only
      rw [endElement_recalling, ih]

theorem endDocument_recalling :
    (i.recalling earlier).endDocument = i.endDocument.recalling earlier := by
  unfold endDocument
  rw [show (i.recalling earlier).frames = i.frames from rfl,
    show (i.recalling earlier).path = i.path from rfl]
  split
  · rfl
  · generalize "Document ended with " ++ Text.decimal i.frames.length ++
      " unclosed element(s), current path is " ++ i.path.render = message
    show ({ closeElements i.frames.length ((i.step (.warning message)).recalling earlier) with
      path := .empty, frames := [], state := .idle } : Interpreter) = _
    rw [closeElements_recalling]
    rfl

theorem step_recalling (e : DocumentEvent) :
    (i.recalling earlier).step e = (i.step e).recalling earlier := by
  cases e with
  | startElement name attributes => exact startElement_recalling earlier i name attributes
  | endElement name => exact endElement_recalling earlier i name
  | characters text =>
    show (i.recalling earlier).characters text = (i.characters text).recalling earlier
    unfold characters
    rw [show (i.recalling earlier).state = i.state from rfl,
      show (i.recalling earlier).frames = i.frames from rfl]
    split
    · rfl
    · split
      · rfl
      · rfl
  | endDocument => exact endDocument_recalling earlier i
  | _ => rfl

/-- An interpreter does the same whatever it called before. -/
theorem run_recalling (es : List DocumentEvent) :
    (i.recalling earlier).run es = (i.run es).recalling earlier := by
  induction es generalizing i with
  | nil => rfl
  | cons e es ih => rw [run_cons, step_recalling, ih, run_cons]

/-! ### Documents -/

/-- All that an interpreter leaves of a document but its rules and session is the record of the
phases called. -/
theorem endDocument_eq : i.endDocument =
    (fresh i.endDocument.rules i.endDocument.implicit i.endDocument.session).recalling
      i.endDocument.calls := rfl

/-- Where a skip that is still on can be lifted by the end of an element, no element that started
since is open, and the frames are the outermost of those that were open then. -/
theorem Consistent.run_anchor {i : Interpreter} {marker : ElementPath}
    {during : List DocumentEvent} (h : i.Consistent) (hskips : i.Skips marker during) :
    (∃ left, (i.run during).frames = List.replicate (openAfter 0 during) ({} : Frame) ++ left ∧
      left <:+ i.frames ∧ marker.size ≤ left.length) ∧
    ((i.run during).frames.length = marker.size →
      openAfter 0 during = 0 ∧ (i.run during).frames <:+ i.frames) := by
  have hanchor : marker.size ≤ i.frames.length := by
    rw [← show i.path.size = i.frames.length from h.aligned]
    exact (h.marked marker (hskips [] List.nil_prefix)).length_le
  obtain ⟨left, hframes, hsuffix, hlength⟩ :=
    h.run_skipping hskips (n := 0) rfl hanchor
  refine ⟨⟨left, hframes, hsuffix, hlength⟩, fun hsize => ?_⟩
  have hnone : openAfter 0 during = 0 := by
    rw [hframes, List.length_append, List.length_replicate] at hsize
    omega
  rw [hframes, hnone]
  exact ⟨rfl, hsuffix⟩

/-- Whatever callbacks an interpreter is given: its path has as many tags as it has frames, the
marker of a skip is a prefix of the path, and while it is idle, as it is after every end of a
document, there are none of both. The frames opened while a skip is on hold no actions and no
text, and the skip is lifted by the end of the element at depth `marker.size` that was open when
it was on, once all elements that started since are closed. After the end of a document all is
done as on an interpreter that is given the rules and the session that are left. -/
theorem run_fresh (rules : RuleStore) (implicit : List ImplicitAction) (session : Session)
    (es : List DocumentEvent) :
    let i := (fresh rules implicit session).run es
    i.path.size = i.frames.length ∧
    (∀ marker, i.state.marker? = some marker → marker.tags <+: i.path.tags) ∧
    (i.state = .idle → i.path = .empty ∧ i.frames = []) ∧
    (i.endDocument.state = .idle ∧ i.endDocument.path = .empty ∧ i.endDocument.frames = []) ∧
    (∀ before during marker, es = before ++ during →
      let start := (fresh rules implicit session).run before
      start.Skips marker during →
      (∃ left, i.frames = List.replicate (openAfter 0 during) ({} : Frame) ++ left ∧
        left <:+ start.frames ∧ marker.size ≤ left.length) ∧
      ∀ e, (i.step e).state.marker? ≠ some marker ↔ e = .startDocument ∨ e = .endDocument ∨
        (∃ name, e = .endElement name) ∧ 0 < marker.size ∧ i.frames.length = marker.size ∧
          openAfter 0 during = 0 ∧ i.frames <:+ start.frames) ∧
    ∀ later, i.endDocument.run later =
      ((fresh i.endDocument.rules i.endDocument.implicit i.endDocument.session).run
        later).recalling i.endDocument.calls := by
  intro i
  have hi : i.Consistent := (consistent_fresh rules implicit session).run es
  refine ⟨hi.aligned, hi.marked, fun hidle => ?_, ⟨rfl, rfl, rfl⟩, ?_, fun later => ?_⟩
  · have hsize : i.path.size = 0 := by
      rw [show i.path.size = i.frames.length from hi.aligned, hi.idle hidle, List.length_nil]
    exact ⟨congrArg ElementPath.mk (List.length_eq_zero_iff.1 hsize), hi.idle hidle⟩
  · intro before during marker hes start hskips
    have hrun : i = start.run during := by
      show (fresh rules implicit session).run es = _
      rw [hes, run_append]
    obtain ⟨hopened, hinstance⟩ :=
      ((consistent_fresh rules implicit session).run before).run_anchor hskips
    rw [← hrun] at hopened hinstance
    have hm : i.state.marker? = some marker := by
      rw [hrun]
      exact hskips during (List.prefix_refl _)
    have honly : i.frames.length = marker.size ↔ i.frames.length = marker.size ∧
        openAfter 0 during = 0 ∧ i.frames <:+ start.frames :=
      ⟨fun hsize => ⟨hsize, hinstance hsize⟩, And.left⟩
    refine ⟨hopened, fun e => ?_⟩
    rw [hi.ends_iff hm e, ← honly]
  · rw [← run_recalling, ← endDocument_eq]

/-- Three elements of one name, the outermost of which skips its children: the ends of the two
inner ones leave the skip on, and the third lifts it. -/
theorem run_fresh_nested :
    let stop : Action := { name := "Stop", begin := fun _ _ => throw .skipChildren }
    let rules : RuleStore := { rules := [(⟨["*", "a"]⟩, [stop])] }
    let opened : List DocumentEvent := [.startElement "a" []]
    let inside : List DocumentEvent := [.startElement "a" [], .startElement "a" [],
      .endElement "a", .endElement "a"]
    ((fresh rules [] {}).run opened).Skips ⟨["a"]⟩ inside ∧
      (((fresh rules [] {}).run (opened ++ inside)).step (.endElement "a")).state.marker? ≠
        some ⟨["a"]⟩ := by
  intro stop rules opened inside
  have hskips : ((fresh rules [] {}).run opened).Skips ⟨["a"]⟩ inside := by
    rw [skips_cons, skips_cons, skips_cons, skips_cons, skips_nil]
    exact ⟨rfl, rfl, rfl, rfl, rfl⟩
  refine ⟨hskips, ?_⟩
  obtain ⟨-, -, -, -, hskip, -⟩ := run_fresh rules [] {} (opened ++ inside)
  obtain ⟨-, hlifts⟩ := hskip opened inside _ rfl hskips
  exact (hlifts (.endElement "a")).2
    (.inr (.inr ⟨⟨"a", rfl⟩, by decide, rfl, rfl, List.suffix_refl _⟩))

end Interpreter
end LogConfig
