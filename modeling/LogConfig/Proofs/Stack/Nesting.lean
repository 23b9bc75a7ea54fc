import LogConfig.Proofs.Dispatch.Refinement
import LogConfig.Proofs.Stack.Release

/-
  The stack along nested callbacks. One event is one of four things for the stack: a start puts
  objects on it, an end releases those of its element, and the others leave it alone. `Nested`
  lists of callbacks hold the end of every element that starts in them; the induction on them
  (`run_nested`) says that such a list only adds to the stack, and when it adds nothing.
-/

namespace LogConfig

/-- Whether an event is no tag and not the end of the document. -/
def DocumentEvent.isFlat : DocumentEvent → Bool
  | startElement .. | endElement _ | endDocument => false
  | _ => true

/-- Callbacks in which every element that starts also ends. An end tag may close nothing where no
element is open around the callbacks. -/
inductive Nested : Bool → List DocumentEvent → Prop where
  | nil {outermost : Bool} : Nested outermost []
  | flat {outermost : Bool} {e : DocumentEvent} {rest : List DocumentEvent} :
    e.isFlat = true → Nested outermost rest → Nested outermost (e :: rest)
  | element {outermost : Bool} {name closing : String} {attributes : Attributes}
      {inside rest : List DocumentEvent} :
    Nested false inside → Nested outermost rest →
    Nested outermost (.startElement name attributes :: (inside ++ .endElement closing :: rest))
  | stray {closing : String} {rest : List DocumentEvent} :
    Nested true rest → Nested true (.endElement closing :: rest)

namespace Interpreter

/-- All actions that the interpreter has or can come to have are disciplined. -/
structure Disciplined (i : Interpreter) : Prop where
  rules : i.scene.Disciplined
  implicit : ∀ rule ∈ i.implicit, rule.action.Disciplined

/-- The actions that began for the open elements, innermost first. -/
def openActions (i : Interpreter) : List (List Invocation) := i.frames.map Frame.invocations

/-- Text goes to the innermost open element and changes nothing else. -/
theorem exists_characters_eq (i : Interpreter) (text : String) :
    ∃ frames, i.characters text = { i with frames } ∧
      frames.map Frame.invocations = i.openActions := by
  unfold characters
  split
  · exact ⟨i.frames, rfl, rfl⟩
  · split
    · exact ⟨i.frames, rfl, rfl⟩
    · next frame outer hf => exact ⟨_, rfl, by simp [openActions, hf]⟩

/-! ### One event -/

/-- A start puts the objects of its actions on the stack. -/
theorem startElement_spec {i : Interpreter} (h : i.Disciplined) (name : String)
    (attributes : Attributes) :
    (i.startElement name attributes).Disciplined ∧
      ∃ begun rs, Held begun rs ∧
        (i.startElement name attributes).openActions = begun :: i.openActions ∧
        (i.startElement name attributes).session.stack = rs.reverse ++ i.session.stack := by
  cases hs : i.state.isSkipping with
  | true =>
    rw [startElement_skipping hs]
    exact ⟨⟨h.rules, h.implicit⟩, [], [], .nil, rfl, rfl⟩
  | false =>
    rw [startElement_eq hs]
    obtain ⟨hfor, hst, hactions⟩ :=
      Scene.actionsFor_spec h.rules h.implicit (i.path.push name) attributes
    generalize i.scene.actionsFor i.implicit (i.path.push name) attributes = found
      at hfor hst hactions ⊢
    obtain ⟨sc, actions⟩ := found
    dsimp only at hfor hst hactions ⊢
    obtain ⟨hbegun, rs, hheld, hst'⟩ := Scene.beginAll_spec name attributes hfor hactions
    generalize sc.beginAll name attributes actions = found at hbegun hheld hst' ⊢
    obtain ⟨sc', begun, signals⟩ := found
    exact ⟨⟨hbegun, h.implicit⟩, begun, rs, hheld, rfl, hst'.trans (congrArg (rs.reverse ++ ·) hst)⟩

theorem closeFrame_spec {i : Interpreter} (h : i.Disciplined) (name : String) {frame : Frame}
    {rs : List Ref} (hh : Held frame.invocations rs) (delivers : Bool) :
    (i.closeFrame name frame delivers).Disciplined ∧
      (i.closeFrame name frame delivers).frames = i.frames ∧
      (i.closeFrame name frame delivers).session.stack = releaseAll rs i.session.stack := by
  cases delivers with
  | true =>
    obtain ⟨hclosed, hst⟩ := Scene.close_spec name frame.text h.rules hh
    rw [closeFrame_eq]
    generalize i.scene.close name frame.text frame.invocations = found at hclosed hst ⊢
    obtain ⟨sc, signals⟩ := found
    exact ⟨⟨hclosed, h.implicit⟩, rfl, hst⟩
  | false =>
    obtain ⟨hclosed, hst⟩ := Scene.finishAll_spec name h.rules hh
    rw [closeFrame_false]
    generalize i.scene.finishAll name frame.invocations = found at hclosed hst ⊢
    obtain ⟨sc, signals⟩ := found
    exact ⟨⟨hclosed, h.implicit⟩, rfl, hst⟩

/-- An end releases the objects of the innermost open element. -/
theorem endElement_spec {i : Interpreter} (h : i.Disciplined) {begun : List Invocation}
    {outer : List (List Invocation)} {rs : List Ref} (ho : i.openActions = begun :: outer)
    (hh : Held begun rs) (name : String) :
    (i.endElement name).Disciplined ∧ (i.endElement name).openActions = outer ∧
      (i.endElement name).session.stack = releaseAll rs i.session.stack := by
  obtain ⟨frame, frames, hf, rfl, rfl⟩ := List.map_eq_cons_iff.1 ho
  unfold endElement
  rw [hf]
  dsimp only
  generalize hp : ({ i with frames, state := _ } : Interpreter) = popped
  have hpopped : popped.Disciplined := by
    rw [← hp]
    exact ⟨h.rules, h.implicit⟩
  obtain ⟨hclosed, hframes, hst⟩ := closeFrame_spec hpopped name hh _
  refine ⟨⟨hclosed.rules, hclosed.implicit⟩, ?_, ?_⟩
  · unfold openActions
    rw [hframes, ← hp]
  · rw [hst, ← hp]

/-- An end tag with no element open is only recorded. -/
theorem endElement_stray {i : Interpreter} (h : i.Disciplined) (hf : i.frames = [])
    (name : String) :
    (i.endElement name).Disciplined ∧ (i.endElement name).frames = [] ∧
      (i.endElement name).session.stack = i.session.stack := by
  unfold endElement
  rw [hf]
  exact ⟨⟨h.rules, h.implicit⟩, hf, rfl⟩

/-- Everything else keeps rules, path, open elements and stack as they are. -/
theorem step_flat (i : Interpreter) {e : DocumentEvent} (he : e.isFlat = true) :
    (i.step e).rules = i.rules ∧ (i.step e).implicit = i.implicit ∧ (i.step e).path = i.path ∧
      (i.step e).openActions = i.openActions ∧ (i.step e).session.stack = i.session.stack := by
  cases e with
  | startElement name attributes => cases he
  | endElement name => cases he
  | endDocument => cases he
  | characters text =>
    obtain ⟨frames, htext, hopen⟩ := i.exists_characters_eq text
    rw [step, htext]
    exact ⟨rfl, rfl, rfl, hopen, rfl⟩
  | _ => exact ⟨rfl, rfl, rfl, rfl, rfl⟩

theorem Disciplined.step_flat {i : Interpreter} (h : i.Disciplined) {e : DocumentEvent}
    (he : e.isFlat = true) : (i.step e).Disciplined := by
  obtain ⟨hrules, himplicit, -⟩ := i.step_flat he
  refine ⟨?_, by rw [himplicit]; exact h.implicit⟩
  show (i.step e).rules.All Action.Disciplined
  rw [hrules]
  exact h.rules

/-! ### What starts push -/

/-- The objects that the start of an element puts on the stack, top first. -/
def pushedBy (i : Interpreter) (name : String) (attributes : Attributes) : List Ref :=
  let after := (i.startElement name attributes).session.stack
  after.take (after.length - i.session.stack.length)

/-- Every start among these callbacks pushes objects that read the same from both ends. -/
def StartsMirrored (i : Interpreter) (es : List DocumentEvent) : Prop :=
  ∀ before name attributes rest, es = before ++ .startElement name attributes :: rest →
    Mirrored ((i.run before).pushedBy name attributes)

theorem startsMirrored_nil (i : Interpreter) : i.StartsMirrored [] := by
  intro before name attributes rest h
  simp at h

theorem startsMirrored_cons {i : Interpreter} {e : DocumentEvent} {es : List DocumentEvent} :
    i.StartsMirrored (e :: es) ↔
      (∀ name attributes, e = .startElement name attributes →
        Mirrored (i.pushedBy name attributes)) ∧ (i.step e).StartsMirrored es := by
  constructor
  · intro h
    refine ⟨fun name attributes he => h [] name attributes es (by rw [he]; rfl), ?_⟩
    intro before name attributes rest hes
    exact h (e :: before) name attributes rest (by rw [hes]; rfl)
  · rintro ⟨hhead, htail⟩ before name attributes rest hes
    cases before with
    | nil =>
      cases hes
      exact hhead name attributes rfl
    | cons e' before =>
      cases hes
      exact htail before name attributes rest rfl

theorem startsMirrored_append {i : Interpreter} {es fs : List DocumentEvent} :
    i.StartsMirrored (es ++ fs) ↔ i.StartsMirrored es ∧ (i.run es).StartsMirrored fs := by
  induction es generalizing i with
  | nil => exact ⟨fun h => ⟨startsMirrored_nil i, h⟩, fun h => h.2⟩
  | cons e es ih =>
    rw [List.cons_append, startsMirrored_cons, ih, startsMirrored_cons, run_cons, and_assoc]

theorem startsMirrored_cons_of_not_start {i : Interpreter} {e : DocumentEvent}
    {es : List DocumentEvent} (he : ∀ name attributes, e ≠ .startElement name attributes) :
    i.StartsMirrored (e :: es) ↔ (i.step e).StartsMirrored es := by
  rw [startsMirrored_cons]
  exact ⟨fun h => h.2, fun h => ⟨fun name attributes hs => absurd hs (he name attributes), h⟩⟩

theorem pushedBy_eq {i : Interpreter} {name : String} {attributes : Attributes} {rs : List Ref}
    (h : (i.startElement name attributes).session.stack = rs ++ i.session.stack) :
    i.pushedBy name attributes = rs := by
  unfold pushedBy
  dsimp only
  rw [h, List.length_append, Nat.add_sub_cancel, List.take_left]

theorem mirrored_pushedBy {i : Interpreter} {name : String} {attributes : Attributes}
    {rs : List Ref}
    (h : (i.startElement name attributes).session.stack = rs.reverse ++ i.session.stack) :
    Mirrored (i.pushedBy name attributes) ↔ Mirrored rs := by
  unfold Mirrored
  rw [pushedBy_eq h, List.reverse_reverse, eq_comm]

/-! ### Nested callbacks -/

theorem eq_of_suffix_chain {as bs cs : List Ref} (h : as <:+ bs) (h' : bs <:+ cs) :
    cs = as ↔ bs = as ∧ cs = bs := by
  constructor
  · rintro rfl
    have hsame := h.eq_of_length_le h'.length_le
    exact ⟨hsame.symm, hsame⟩
  · exact fun he => he.2.trans he.1

/-- Nested callbacks close what they open and only add to the stack; they add nothing exactly
when the pushes of all their elements are mirrored. -/
theorem run_nested {outermost : Bool} {es : List DocumentEvent} (hn : Nested outermost es)
    {i : Interpreter} (h : i.Disciplined) (ho : outermost = true → i.openActions = []) :
    (i.run es).Disciplined ∧ (i.run es).openActions = i.openActions ∧
      i.session.stack <:+ (i.run es).session.stack ∧
      ((i.run es).session.stack = i.session.stack ↔ i.StartsMirrored es) := by
  induction hn generalizing i with
  | nil =>
    rw [run_nil]
    exact ⟨h, rfl, List.suffix_refl _, fun _ => startsMirrored_nil i, fun _ => rfl⟩
  | flat he _ ih =>
    obtain ⟨-, -, -, hopen, hst⟩ := i.step_flat he
    obtain ⟨hrun, hopen', hsuffix, hiff⟩ := ih (h.step_flat he) (by rwa [hopen])
    rw [run_cons, startsMirrored_cons_of_not_start, ← hst, ← hopen]
    · exact ⟨hrun, hopen', hsuffix, hiff⟩
    · rintro name attributes rfl
      cases he
  | @stray closing rest _ ih =>
    have hf : i.frames = [] := List.map_eq_nil_iff.1 (ho rfl)
    obtain ⟨hstep, hf', hst⟩ := endElement_stray h hf closing
    have hopen : (i.endElement closing).openActions = i.openActions := by
      unfold openActions
      rw [hf, hf']
    obtain ⟨hrun, hopen', hsuffix, hiff⟩ := ih hstep (by rwa [hopen])
    rw [run_cons, startsMirrored_cons_of_not_start (by simp), ← hst, ← hopen]
    exact ⟨hrun, hopen', hsuffix, hiff⟩
  | @element outermost name closing attributes inside rest _ _ ihInside ihRest =>
    -- the start pushes, the inside adds, the end releases, and what follows adds again
    obtain ⟨hstart, begun, rs, hheld, hopen, hst⟩ := startElement_spec h name attributes
    obtain ⟨hinside, hopen', ⟨extra, hextra⟩, hinsideIff⟩ := ihInside hstart (by simp)
    obtain ⟨hend, hopen'', hst'⟩ := endElement_spec hinside (hopen'.trans hopen) hheld closing
    obtain ⟨hrun, hopen''', hsuffix, hrestIff⟩ := ihRest hend (by rwa [hopen''])
    have hbelow := releaseAll_pushed extra rs i.session.stack
    rw [← hst, hextra, ← hst'] at hbelow
    obtain ⟨hbelow, hclosedIff⟩ := hbelow
    have hnothing : extra = [] ↔ (i.startElement name attributes).StartsMirrored inside := by
      rw [← hinsideIff, ← hextra, List.append_left_eq_self]
    rw [run_cons, run_append, run_cons, startsMirrored_cons, startsMirrored_append,
      startsMirrored_cons_of_not_start (by simp)]
    refine ⟨hrun, hopen'''.trans hopen'', hbelow.trans hsuffix, ?_⟩
    refine (eq_of_suffix_chain hbelow hsuffix).trans ?_
    rw [hclosedIff, hrestIff, hnothing, ← mirrored_pushedBy hst]
    constructor
    · rintro ⟨⟨hin, hm⟩, hafter⟩
      refine ⟨?_, hin, hafter⟩
      intro n as he
      cases he
      exact hm
    · rintro ⟨hm, hin, hafter⟩
      exact ⟨⟨hin, hm name attributes rfl⟩, hafter⟩

end Interpreter
end LogConfig
