import LogConfig.Configurator
import LogConfig.Proofs.Stack.Nesting

/-
  The callbacks of a session and its elements. A reader reports callbacks up to the end of the
  document; elements open then are closed by force, which comes to further end callbacks
  (`scene_endDocument`). Path and open elements stay in step all the way, so the end is forced
  for every element still open, and every element that starts also ends (`exists_element`).
-/

namespace LogConfig
namespace Interpreter

/-! ### Path and open elements -/

/-- The path names the open elements. -/
def Aligned (i : Interpreter) : Prop := i.path.size = i.frames.length

theorem startElement_shape (i : Interpreter) (name : String) (attributes : Attributes) :
    (i.startElement name attributes).path = i.path.push name ∧
      (i.startElement name attributes).frames.length = i.frames.length + 1 := by
  cases hs : i.state.isSkipping with
  | true =>
    rw [startElement_skipping hs]
    exact ⟨rfl, rfl⟩
  | false =>
    rw [startElement_eq hs]
    rcases i.scene.actionsFor i.implicit (i.path.push name) attributes with ⟨sc, actions⟩
    dsimp only
    rcases sc.beginAll name attributes actions with ⟨sc', begun, signals⟩
    exact ⟨rfl, rfl⟩

theorem closeFrame_shape (i : Interpreter) (name : String) (frame : Frame) (delivers : Bool) :
    (i.closeFrame name frame delivers).path = i.path ∧
      (i.closeFrame name frame delivers).frames = i.frames := by
  cases delivers with
  | true =>
    rw [closeFrame_eq]
    rcases i.scene.close name frame.text frame.invocations with ⟨sc, signals⟩
    exact ⟨rfl, rfl⟩
  | false =>
    rw [closeFrame_false]
    rcases i.scene.finishAll name frame.invocations with ⟨sc, signals⟩
    exact ⟨rfl, rfl⟩

theorem endElement_shape {i : Interpreter} {frame : Frame} {outer : List Frame}
    (hf : i.frames = frame :: outer) (name : String) :
    (i.endElement name).path = i.path.parent ∧ (i.endElement name).frames = outer := by
  unfold endElement
  rw [hf]
  dsimp only
  generalize hp : ({ i with frames := outer, state := _ } : Interpreter) = popped
  obtain ⟨hpath, hframes⟩ := closeFrame_shape popped name frame
    (decide (i.state.marker? = some i.path) || !i.state.isSkipping)
  rw [hpath, hframes, ← hp]
  exact ⟨rfl, rfl⟩

theorem endElement_shape_stray {i : Interpreter} (hf : i.frames = []) (name : String) :
    (i.endElement name).path = i.path ∧ (i.endElement name).frames = i.frames := by
  unfold endElement
  rw [hf]
  exact ⟨rfl, hf⟩

theorem frames_length_flat (i : Interpreter) {e : DocumentEvent} (he : e.isFlat = true) :
    (i.step e).frames.length = i.frames.length := by
  obtain ⟨-, -, -, hopen, -⟩ := i.step_flat he
  have := congrArg List.length hopen
  rwa [openActions, openActions, List.length_map, List.length_map] at this

/-- Every event but the end of the document keeps path and open elements in step. -/
theorem Aligned.step {i : Interpreter} (h : i.Aligned) {e : DocumentEvent}
    (he : e ≠ .endDocument) : (i.step e).Aligned := by
  unfold Aligned at h ⊢
  by_cases hflat : e.isFlat = true
  · obtain ⟨-, -, hpath, -⟩ := i.step_flat hflat
    rw [hpath, frames_length_flat i hflat, h]
  cases e with
  | startElement name attributes =>
    obtain ⟨hpath, hframes⟩ := startElement_shape i name attributes
    show (i.startElement name attributes).path.size = (i.startElement name attributes).frames.length
    rw [hpath, hframes, ElementPath.size_push, h]
  | endElement name =>
    show (i.endElement name).path.size = (i.endElement name).frames.length
    cases hf : i.frames with
    | nil =>
      obtain ⟨hpath, hframes⟩ := endElement_shape_stray hf name
      rw [hpath, hframes, h]
    | cons frame outer =>
      obtain ⟨hpath, hframes⟩ := endElement_shape hf name
      rw [hf, List.length_cons] at h
      have hparent : i.path.parent.size = i.path.size - 1 := List.length_dropLast
      rw [hpath, hframes, hparent, h, Nat.add_sub_cancel]
  | endDocument => exact absurd rfl he
  | _ => exact absurd rfl hflat

theorem Aligned.run {i : Interpreter} (h : i.Aligned) {es : List DocumentEvent}
    (he : .endDocument ∉ es) : (i.run es).Aligned := by
  induction es generalizing i with
  | nil => exact h
  | cons e es ih =>
    rw [run_cons]
    exact ih (h.step fun heq => he (by rw [heq]; exact List.mem_cons_self))
      fun hmem => he (List.mem_cons_of_mem _ hmem)

/-! ### The forced end -/

/-- The end callbacks of up to `n` open elements at a path, innermost first. -/
def forcedEnds : Nat → ElementPath → List DocumentEvent
  | 0, _ => []
  | n + 1, path =>
    match path.last? with
    | none => []
    | some tag => .endElement tag :: forcedEnds n path.parent

/-- What the end of the document comes to where elements are open: a warning and their ends. -/
def forced (i : Interpreter) : List DocumentEvent :=
  if i.frames.isEmpty then []
  else
    .warning ("Document ended with " ++ Text.decimal i.frames.length ++
      " unclosed element(s), current path is " ++ i.path.render) ::
      forcedEnds i.frames.length i.path

theorem closeElements_eq (n : Nat) (i : Interpreter) (h : n ≤ i.frames.length) :
    closeElements n i = i.run (forcedEnds n i.path) := by
  induction n generalizing i with
  | zero => rfl
  | succ n ih =>
    unfold closeElements forcedEnds
    cases i.path.last? with
    | none => rfl
    | some tag =>
      obtain ⟨frame, outer, hf⟩ := List.exists_cons_of_length_pos (by omega : 0 < i.frames.length)
      obtain ⟨hpath, hframes⟩ := endElement_shape hf tag
      rw [hf, List.length_cons] at h
      dsimp only
      rw [ih (i.endElement tag) (by rw [hframes]; omega), hpath, run_cons]
      rfl

/-- The end of the document leaves the scene that the forced callbacks leave. -/
theorem scene_endDocument (i : Interpreter) : i.endDocument.scene = (i.run i.forced).scene := by
  unfold endDocument forced
  split
  · rfl
  · rw [run_cons]
    generalize "Document ended with " ++ Text.decimal i.frames.length ++
      " unclosed element(s), current path is " ++ i.path.render = message
    show (closeElements i.frames.length (i.step (.warning message))).scene = _
    rw [closeElements_eq i.frames.length (i.step (.warning message)) (Nat.le_refl _)]
    rfl

theorem session_endDocument (i : Interpreter) :
    i.endDocument.session = (i.run i.forced).session :=
  congrArg Scene.session (scene_endDocument i)

/-! ### Every element ends -/

/-- These callbacks end `n` open elements, one after the other, and whatever starts in them. -/
def Closes : Nat → List DocumentEvent → Prop
  | 0, es => Nested true es
  | n + 1, es => ∃ inside closing rest,
      es = inside ++ .endElement closing :: rest ∧ Nested false inside ∧ Closes n rest

theorem Closes.flat {n : Nat} {e : DocumentEvent} {es : List DocumentEvent}
    (he : e.isFlat = true) (h : Closes n es) : Closes n (e :: es) := by
  cases n with
  | zero => exact Nested.flat he h
  | succ n =>
    obtain ⟨inside, closing, rest, rfl, hinside, hrest⟩ := h
    exact ⟨e :: inside, closing, rest, rfl, .flat he hinside, hrest⟩

theorem Closes.start {n : Nat} {name : String} {attributes : Attributes} {es : List DocumentEvent}
    (h : Closes (n + 1) es) : Closes n (.startElement name attributes :: es) := by
  obtain ⟨inside, closing, rest, rfl, hinside, hrest⟩ := h
  cases n with
  | zero => exact Nested.element hinside hrest
  | succ n =>
    obtain ⟨inside', closing', rest', rfl, hinside', hrest'⟩ := hrest
    exact ⟨.startElement name attributes :: (inside ++ .endElement closing :: inside'), closing',
      rest', by simp, .element hinside hinside', hrest'⟩

theorem Closes.end {n : Nat} {name : String} {es : List DocumentEvent} (h : Closes (n - 1) es) :
    Closes n (.endElement name :: es) := by
  cases n with
  | zero => exact Nested.stray h
  | succ n => exact ⟨[], name, es, rfl, .nil, h⟩

/-- Callbacks that close what is open after others close, with these in front, what was open. -/
theorem Closes.after {i : Interpreter} {es fs : List DocumentEvent} (he : .endDocument ∉ es)
    (h : Closes (i.run es).frames.length fs) : Closes i.frames.length (es ++ fs) := by
  induction es generalizing i with
  | nil => exact h
  | cons e es ih =>
    rw [run_cons] at h
    have hrest := ih (fun hmem => he (List.mem_cons_of_mem _ hmem)) h
    by_cases hflat : e.isFlat = true
    · rw [frames_length_flat i hflat] at hrest
      exact .flat hflat hrest
    cases e with
    | startElement name attributes =>
      refine Closes.start ?_
      rw [← (startElement_shape i name attributes).2]
      exact hrest
    | endElement name =>
      refine Closes.end ?_
      have hlength : (i.endElement name).frames.length = i.frames.length - 1 := by
        cases hf : i.frames with
        | nil => rw [(endElement_shape_stray hf name).2, hf, List.length_nil]
        | cons frame outer =>
          rw [(endElement_shape hf name).2, List.length_cons, Nat.add_sub_cancel]
      rw [← hlength]
      exact hrest
    | endDocument => exact absurd List.mem_cons_self he
    | _ => exact absurd rfl hflat

theorem closes_forcedEnds {n : Nat} {path : ElementPath} (h : path.size = n) :
    Closes n (forcedEnds n path) := by
  induction n generalizing path with
  | zero => exact Nested.nil
  | succ n ih =>
    unfold forcedEnds
    cases hl : path.last? with
    | none =>
      have := List.getLast?_eq_none_iff.1 hl
      rw [ElementPath.size, this] at h
      cases h
    | some tag =>
      have hparent : path.parent.size = path.size - 1 := List.length_dropLast
      exact .end (ih (by rw [hparent, h, Nat.add_sub_cancel]))

theorem Aligned.closes_forced {i : Interpreter} (h : i.Aligned) :
    Closes i.frames.length i.forced := by
  unfold forced
  split
  · next hf =>
    rw [List.isEmpty_iff.1 hf]
    exact Nested.nil
  · exact .flat rfl (closes_forcedEnds h)

/-- The forced end is a warning and end callbacks, nothing else. -/
theorem mem_forced {i : Interpreter} {e : DocumentEvent} (h : e ∈ i.forced) :
    (∃ message, e = .warning message) ∨ ∃ tag, e = .endElement tag := by
  have ends : ∀ (n : Nat) (path : ElementPath), e ∈ forcedEnds n path →
      ∃ tag, e = .endElement tag := by
    intro n
    induction n with
    | zero => exact fun path he => absurd he List.not_mem_nil
    | succ n ih =>
      intro path he
      unfold forcedEnds at he
      split at he
      · exact absurd he List.not_mem_nil
      · next tag _ =>
        rcases List.mem_cons.1 he with he | he
        · exact ⟨tag, he⟩
        · exact ih _ he
  unfold forced at h
  split at h
  · exact absurd h List.not_mem_nil
  · rcases List.mem_cons.1 h with h | h
    · exact .inl ⟨_, h⟩
    · exact .inr (ends _ _ h)

theorem startElement_not_mem_forced (i : Interpreter) (name : String) (attributes : Attributes) :
    .startElement name attributes ∉ i.forced := by
  intro h
  rcases mem_forced h with ⟨message, he⟩ | ⟨tag, he⟩
  · cases he
  · cases he

theorem endDocument_not_mem_forced (i : Interpreter) : .endDocument ∉ i.forced := by
  intro h
  rcases mem_forced h with ⟨message, he⟩ | ⟨tag, he⟩
  · cases he
  · cases he

end Interpreter

/-- An element among callbacks: those before it, its start, those inside, its end, and those
after it. -/
structure Element (es : List DocumentEvent) where
  before : List DocumentEvent
  name : String
  attributes : Attributes
  inside : List DocumentEvent
  closing : String
  after : List DocumentEvent
  split : es = before ++
    .startElement name attributes :: (inside ++ .endElement closing :: after)
  nested : Nested false inside

/-- The callbacks of the element, from its start to its end. -/
def Element.itself {es : List DocumentEvent} (e : Element es) : List DocumentEvent :=
  .startElement e.name e.attributes :: (e.inside ++ [.endElement e.closing])

theorem Element.nested_itself {es : List DocumentEvent} (e : Element es) :
    Nested false e.itself := .element e.nested .nil

namespace Interpreter

/-- The forced end starts nothing, so a start is one of the callbacks before it. -/
theorem start_before_forced {i : Interpreter} {es before rest : List DocumentEvent} {name : String}
    {attributes : Attributes}
    (hs : es ++ i.forced = before ++ .startElement name attributes :: rest) :
    ∃ rest', es = before ++ .startElement name attributes :: rest' ∧ rest = rest' ++ i.forced := by
  have hnone := startElement_not_mem_forced i name attributes
  rcases List.append_eq_append_iff.1 hs with ⟨as, -, hforced⟩ | ⟨cs, hes, hforced⟩
  · refine absurd ?_ hnone
    rw [hforced]
    exact List.mem_append_right _ List.mem_cons_self
  · cases cs with
    | nil =>
      refine absurd ?_ hnone
      rw [← show _ = i.forced from hforced]
      exact List.mem_cons_self
    | cons c cs =>
      cases hforced
      exact ⟨cs, hes, rfl⟩

/-- Every element that starts among the callbacks up to the forced end has its end there. -/
theorem exists_element {i : Interpreter} (h : i.Aligned) {es : List DocumentEvent}
    (he : .endDocument ∉ es) {before rest : List DocumentEvent} {name : String}
    {attributes : Attributes}
    (hs : es ++ (i.run es).forced = before ++ .startElement name attributes :: rest) :
    ∃ e : Element (es ++ (i.run es).forced),
      e.before = before ∧ e.name = name ∧ e.attributes = attributes := by
  obtain ⟨rest', hes, hrest⟩ := start_before_forced hs
  have halign : (i.run es).Aligned := h.run he
  have hrun : i.run es = ((i.run before).startElement name attributes).run rest' := by
    rw [hes, run_append, run_cons]
    rfl
  have hcloses := halign.closes_forced
  rw [hrun] at hcloses
  have hclosed := Closes.after (fun hmem => he (by rw [hes]; simp [hmem])) hcloses
  rw [(startElement_shape _ name attributes).2, ← hrun, ← hrest] at hclosed
  obtain ⟨inside, closing, after, hsplit, hinside, -⟩ := hclosed
  exact ⟨⟨before, name, attributes, inside, closing, after, by rw [hs, hsplit], hinside⟩,
    rfl, rfl, rfl⟩

end Interpreter
end LogConfig
