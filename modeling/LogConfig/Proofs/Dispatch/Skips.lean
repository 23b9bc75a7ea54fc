import LogConfig.Proofs.Stack.Elements

/-
  The state between two callbacks. Whatever callbacks an interpreter is given, its path names the
  open elements, the marker of a skip is the path of one of them or empty, and nothing is open
  while it is idle (`Consistent.step`, `Consistent.run`).

  A skip ends where the path equals its marker. Since the elements above the marker stay open as
  long as the skip is on, the comparison of names finds the element that the skip is anchored at,
  and no other of the same name (`Consistent.lifts_iff`, `Consistent.run_skipping`).
-/

namespace LogConfig

theorem ElementPath.size_lt_of_prefix {path outer : ElementPath} (h : outer.tags <+: path.tags)
    (hne : outer ≠ path) : outer.size < path.size := by
  refine Nat.lt_of_le_of_ne h.length_le fun hsize => hne ?_
  obtain ⟨tags⟩ := path
  obtain ⟨outerTags⟩ := outer
  exact congrArg ElementPath.mk (h.eq_of_length hsize)

theorem ElementPath.prefix_parent {path outer : ElementPath} (h : outer.tags <+: path.tags)
    (hne : outer ≠ path) : outer.tags <+: path.parent.tags := by
  have hlt : outer.size < path.size := size_lt_of_prefix h hne
  have hparent : path.parent.size = path.size - 1 := List.length_dropLast
  refine List.prefix_of_prefix_length_le h (List.dropLast_prefix _) ?_
  show outer.size ≤ path.parent.size
  omega

theorem DispatchState.isSkipping_of_marker {s : DispatchState} {marker : ElementPath}
    (h : s.marker? = some marker) : s.isSkipping = true := by
  rw [isSkipping, h, Option.isSome_some]

namespace Interpreter

/-- An interpreter that was given no callback. -/
def fresh (rules : RuleStore) (implicit : List ImplicitAction) (session : Session) :
    Interpreter := { rules, implicit, session }

/-! ### The state after one callback -/

/-- The start of an element that is dispatched leaves what the signals of its actions come to. -/
theorem startElement_state {i : Interpreter} (hs : i.state.isSkipping = false) (name : String)
    (attributes : Attributes) :
    ∃ signals : List Signal, (i.startElement name attributes).state =
      signals.foldl (afterBegin (i.path.push name)) .parsing := by
  rw [startElement_eq hs]
  exact ⟨_, rfl⟩

theorem closeFrame_state (i : Interpreter) (name : String) (frame : Frame) (delivers : Bool) :
    ∃ signals : List Signal, (i.closeFrame name frame delivers).state =
      signals.foldl (afterLate i.path) i.state := by
  cases delivers with
  | true => rw [closeFrame_eq]; exact ⟨_, rfl⟩
  | false => rw [closeFrame_false]; exact ⟨_, rfl⟩

/-- The end of an element lifts the skip that is anchored at it, and leaves what the signals of its
actions come to. -/
theorem endElement_state {i : Interpreter} {frame : Frame} {outer : List Frame}
    (hf : i.frames = frame :: outer) (name : String) :
    ∃ signals : List Signal, (i.endElement name).state = signals.foldl (afterLate i.path)
      (if i.state.marker? = some i.path then .parsing else i.state) := by
  unfold endElement
  rw [hf]
  simp only [decide_eq_true_eq]
  exact closeFrame_state _ name frame _

theorem endElement_state_stray {i : Interpreter} (hf : i.frames = []) (name : String) :
    (i.endElement name).state = i.state := by
  unfold endElement
  rw [hf]
  rfl

/-- No other callback but the start of a document changes whether elements are dispatched. -/
theorem state_flat (i : Interpreter) {e : DocumentEvent} (he : e.isFlat = true)
    (hstart : e ≠ .startDocument) : (i.step e).state = i.state := by
  cases e with
  | startDocument => exact absurd rfl hstart
  | startElement name attributes => cases he
  | endElement name => cases he
  | endDocument => cases he
  | characters text =>
    obtain ⟨frames, htext, -⟩ := i.exists_characters_eq text
    rw [step, htext]
  | _ => rfl

/-- The begin phases of an element may set a skip that is anchored at the element or its parent. -/
theorem foldl_afterBegin_spec (path : ElementPath) (signals : List Signal) :
    signals.foldl (afterBegin path) .parsing ≠ .idle ∧
      ∀ marker, (signals.foldl (afterBegin path) .parsing).marker? = some marker →
        marker = path ∨ marker = path.parent := by
  rw [foldl_afterBegin_parsing]
  split
  · exact ⟨nofun, fun marker h => .inr (Option.some.inj h).symm⟩
  · split
    · exact ⟨nofun, nofun⟩
    · exact ⟨nofun, fun marker h => .inl (Option.some.inj h).symm⟩

/-- The late phases of an element may set a skip that is anchored at its parent. -/
theorem foldl_afterLate_spec (path : ElementPath) (signals : List Signal) :
    signals.foldl (afterLate path) .parsing ≠ .idle ∧
      ∀ marker, (signals.foldl (afterLate path) .parsing).marker? = some marker →
        marker = path.parent := by
  rw [foldl_afterLate_parsing]
  split
  · exact ⟨nofun, fun marker h => (Option.some.inj h).symm⟩
  · exact ⟨nofun, nofun⟩

/-! ### What every callback keeps -/

/-- The path names the open elements, a skip ends at one of them or at the end of the document, and
nothing is open while there is no document. -/
structure Consistent (i : Interpreter) : Prop where
  aligned : i.Aligned
  marked : ∀ marker, i.state.marker? = some marker → marker.tags <+: i.path.tags
  idle : i.state = .idle → i.frames = []

theorem consistent_fresh (rules : RuleStore) (implicit : List ImplicitAction)
    (session : Session) : (fresh rules implicit session).Consistent :=
  ⟨rfl, nofun, fun _ => rfl⟩

namespace Consistent

variable {i : Interpreter} {marker : ElementPath}

theorem startElement (h : i.Consistent) (name : String) (attributes : Attributes) :
    (i.startElement name attributes).Consistent := by
  have haligned : (i.startElement name attributes).Aligned :=
    h.aligned.step (e := .startElement name attributes) nofun
  obtain ⟨hpath, -⟩ := startElement_shape i name attributes
  have hpushed : i.path.tags <+: (i.path.push name).tags := List.prefix_append ..
  cases hs : i.state.isSkipping with
  | true =>
    rw [startElement_skipping hs] at haligned ⊢
    refine ⟨haligned, fun marker hm => (h.marked marker hm).trans hpushed, fun hidle => ?_⟩
    rw [show i.state = .idle from hidle] at hs
    cases hs
  | false =>
    obtain ⟨signals, hstate⟩ := startElement_state hs name attributes
    obtain ⟨hidle, hmarker⟩ := foldl_afterBegin_spec (i.path.push name) signals
    rw [← hstate] at hidle hmarker
    refine ⟨haligned, fun marker hm => ?_, fun he => absurd he hidle⟩
    rw [hpath]
    rcases hmarker marker hm with rfl | rfl
    · exact List.prefix_refl _
    · rw [ElementPath.parent_push]
      exact hpushed

/-- An end either finds dispatch on or lifts the skip, or it leaves the skip that is on. -/
theorem endElement_cases (h : i.Consistent) {frame : Frame} {outer : List Frame}
    (hf : i.frames = frame :: outer) (name : String) :
    ((i.state = .parsing ∨ i.state.marker? = some i.path) ∧
      ∃ signals : List Signal,
        (i.endElement name).state = signals.foldl (afterLate i.path) .parsing) ∨
    ∃ marker, i.state.marker? = some marker ∧ marker ≠ i.path ∧
      (i.endElement name).state = i.state := by
  obtain ⟨signals, hstate⟩ := endElement_state hf name
  cases hm : i.state.marker? with
  | none =>
    have hparsing : i.state = .parsing := by
      cases hs : i.state with
      | parsing => rfl
      | idle => rw [h.idle hs] at hf; cases hf
      | skippingChildren marker => rw [hs] at hm; cases hm
      | skippingSiblings marker => rw [hs] at hm; cases hm
    rw [hm, if_neg nofun, hparsing] at hstate
    exact .inl ⟨.inl hparsing, signals, hstate⟩
  | some marker =>
    rw [hm] at hstate
    by_cases hpath : marker = i.path
    · rw [if_pos (by rw [hpath])] at hstate
      exact .inl ⟨.inr (by rw [hpath]), signals, hstate⟩
    · have hskipping := DispatchState.isSkipping_of_marker hm
      rw [if_neg fun he => hpath (Option.some.inj he),
        foldl_afterLate_skipping i.path hskipping] at hstate
      exact .inr ⟨marker, rfl, hpath, hstate⟩

theorem endElement (h : i.Consistent) (name : String) : (i.endElement name).Consistent := by
  have haligned : (i.endElement name).Aligned := h.aligned.step (e := .endElement name) nofun
  cases hf : i.frames with
  | nil =>
    obtain ⟨hpath, hframes⟩ := endElement_shape_stray hf name
    have hstate := endElement_state_stray hf name
    refine ⟨haligned, ?_, ?_⟩
    · rw [hpath, hstate]
      exact h.marked
    · rw [hframes, hstate]
      exact h.idle
  | cons frame outer =>
    obtain ⟨hpath, -⟩ := endElement_shape hf name
    rcases h.endElement_cases hf name with ⟨-, signals, hstate⟩ | ⟨anchor, hm, hne, hstate⟩
    · obtain ⟨hidle, hmarker⟩ := foldl_afterLate_spec i.path signals
      rw [← hstate] at hidle hmarker
      refine ⟨haligned, fun marker hm => ?_, fun he => absurd he hidle⟩
      have hparent := (hmarker marker hm).trans hpath.symm
      exact hparent ▸ List.prefix_refl _
    · -- the path is longer than the marker, so the marker is also a prefix of the parent's path
      have hbelow := ElementPath.prefix_parent (h.marked anchor hm) hne
      rw [← hstate] at hm
      refine ⟨haligned, fun marker hmarker => ?_, fun he => ?_⟩
      · cases hm.symm.trans hmarker
        rw [hpath]
        exact hbelow
      · rw [he] at hm
        cases hm

theorem flat (h : i.Consistent) {e : DocumentEvent} (he : e.isFlat = true)
    (hstart : e ≠ .startDocument) : (i.step e).Consistent := by
  obtain ⟨-, -, hpath, -⟩ := i.step_flat he
  have hstate := state_flat i he hstart
  refine ⟨h.aligned.step (by rintro rfl; cases he), ?_, fun hidle => ?_⟩
  · rw [hpath, hstate]
    exact h.marked
  · rw [hstate] at hidle
    rw [← List.length_eq_zero_iff, frames_length_flat i he, h.idle hidle, List.length_nil]

theorem step (h : i.Consistent) (e : DocumentEvent) : (i.step e).Consistent := by
  cases e with
  | startElement name attributes => exact h.startElement name attributes
  | endElement name => exact h.endElement name
  | endDocument => exact ⟨rfl, nofun, fun _ => rfl⟩
  | startDocument => exact ⟨h.aligned, nofun, nofun⟩
  | _ => exact h.flat rfl nofun

theorem run (h : i.Consistent) (es : List DocumentEvent) : (i.run es).Consistent :=
  List.foldlRecOn es Interpreter.step h fun _ hi e _ => hi.step e

/-! ### The end of a skip -/

/-- A skip is lifted by the end of an element exactly when this is the innermost element at the
marker, and not by ends of elements inside it, whatever their names. -/
theorem lifts_iff (h : i.Consistent) (hm : i.state.marker? = some marker) (name : String) :
    (i.endElement name).state.marker? ≠ some marker ↔
      0 < marker.size ∧ i.frames.length = marker.size := by
  have haligned : i.path.size = i.frames.length := h.aligned
  cases hf : i.frames with
  | nil =>
    rw [endElement_state_stray hf name, List.length_nil]
    exact ⟨fun hlifted => absurd hm hlifted, fun hanchor => by omega⟩
  | cons frame outer =>
    rw [← hf, ← haligned]
    rcases h.endElement_cases hf name with ⟨hlifts, signals, hstate⟩ | ⟨anchor, hm', hne, hstate⟩
    · have hmarker : marker = i.path := by
        rcases hlifts with hparsing | hpath
        · rw [hparsing] at hm
          cases hm
        · exact Option.some.inj (hm.symm.trans hpath)
      have hpos : 0 < i.path.size := by rw [haligned, hf]; exact Nat.succ_pos _
      have hparent : i.path.parent.size = i.path.size - 1 := List.length_dropLast
      subst hmarker
      refine ⟨fun _ => ⟨hpos, rfl⟩, fun _ hstill => ?_⟩
      rw [hstate] at hstill
      have he := (foldl_afterLate_spec i.path signals).2 _ hstill
      rw [← he] at hparent
      omega
    · cases hm.symm.trans hm'
      have hlt := ElementPath.size_lt_of_prefix (h.marked marker hm) hne
      rw [hstate]
      exact ⟨fun hlifted => absurd hm hlifted, fun hanchor => by omega⟩

/-- Only ends of elements lift a skip, unless a document starts or ends. -/
theorem ends_iff (h : i.Consistent) (hm : i.state.marker? = some marker) (e : DocumentEvent) :
    (i.step e).state.marker? ≠ some marker ↔ e = .startDocument ∨ e = .endDocument ∨
      (∃ name, e = .endElement name) ∧ 0 < marker.size ∧ i.frames.length = marker.size := by
  have kept (he : e.isFlat = true) (hstart : e ≠ .startDocument) :
      (i.step e).state.marker? = some marker := by rw [state_flat i he hstart, hm]
  cases e with
  | startDocument => exact ⟨fun _ => .inl rfl, fun _ => nofun⟩
  | endDocument => exact ⟨fun _ => .inr (.inl rfl), fun _ => nofun⟩
  | endElement name =>
    have hlifts := h.lifts_iff hm name
    constructor
    · exact fun hlifted => .inr (.inr ⟨⟨name, rfl⟩, hlifts.1 hlifted⟩)
    · rintro (he | he | ⟨-, hanchor⟩)
      · cases he
      · cases he
      · exact hlifts.2 hanchor
  | startElement name attributes =>
    have hskipping := DispatchState.isSkipping_of_marker hm
    have hstays : (i.startElement name attributes).state.marker? = some marker := by
      rw [startElement_skipping hskipping]
      exact hm
    exact ⟨fun hlifted => absurd hstays hlifted, by simp⟩
  | _ => exact ⟨fun hlifted => absurd (kept rfl nofun) hlifted, by simp⟩

end Consistent

/-! ### While a skip is on -/

/-- A skip up to the element at the marker is on, and stays on all through these callbacks. -/
def Skips (i : Interpreter) (marker : ElementPath) (during : List DocumentEvent) : Prop :=
  ∀ seen, seen <+: during → (i.run seen).state.marker? = some marker

/-- How many elements that start in these callbacks are still open after them, when `n` were open
inside before. -/
def openAfter : Nat → List DocumentEvent → Nat
  | n, [] => n
  | n, .startElement _ _ :: rest => openAfter (n + 1) rest
  | n, .endElement _ :: rest => openAfter (n - 1) rest
  | n, _ :: rest => openAfter n rest

theorem skips_nil {i : Interpreter} {marker : ElementPath} :
    i.Skips marker [] ↔ i.state.marker? = some marker := by
  constructor
  · exact fun h => h [] List.nil_prefix
  · intro hm seen hseen
    rw [List.prefix_nil.1 hseen]
    exact hm

theorem skips_cons {i : Interpreter} {marker : ElementPath} {e : DocumentEvent}
    {during : List DocumentEvent} :
    i.Skips marker (e :: during) ↔
      i.state.marker? = some marker ∧ (i.step e).Skips marker during := by
  constructor
  · exact fun h =>
      ⟨h [] List.nil_prefix, fun seen hseen => h (e :: seen) ((List.prefix_cons_inj e).2 hseen)⟩
  · rintro ⟨hm, hrest⟩ seen hseen
    rcases List.prefix_cons_iff.1 hseen with rfl | ⟨rest, rfl, hprefix⟩
    · exact hm
    · exact hrest rest hprefix

/-- While a skip is on, elements that start get frames without actions and without text, and the
elements above the marker, that one included, stay open. -/
theorem Consistent.run_skipping {i : Interpreter} {marker : ElementPath}
    {during : List DocumentEvent} (h : i.Consistent) (hskips : i.Skips marker during) {n : Nat}
    {outer : List Frame} (hf : i.frames = List.replicate n ({} : Frame) ++ outer)
    (hanchor : marker.size ≤ outer.length) :
    ∃ left, (i.run during).frames = List.replicate (openAfter n during) ({} : Frame) ++ left ∧
      left <:+ outer ∧ marker.size ≤ left.length := by
  induction during generalizing i n outer with
  | nil => exact ⟨outer, hf, List.suffix_refl _, hanchor⟩
  | cons e during ih =>
    obtain ⟨hm, hrest⟩ := skips_cons.1 hskips
    have hskipping := DispatchState.isSkipping_of_marker hm
    have hnow : (i.step e).state.marker? = some marker := hrest [] List.nil_prefix
    cases e with
    | startElement name attributes =>
      have hframes : (i.startElement name attributes).frames =
          List.replicate (n + 1) ({} : Frame) ++ outer := by
        rw [startElement_skipping hskipping, hf]
        rfl
      exact ih (h.step _) hrest hframes hanchor
    | endElement name =>
      have hkept : ¬ (0 < marker.size ∧ i.frames.length = marker.size) := fun hlifts =>
        (h.lifts_iff hm name).2 hlifts hnow
      cases n with
      | succ n =>
        have hframes := (endElement_shape hf name).2
        exact ih (h.step _) hrest hframes hanchor
      | zero =>
        cases outer with
        | nil =>
          have hframes := (endElement_shape_stray hf name).2
          exact ih (h.step _) hrest (hframes.trans hf) hanchor
        | cons frame outer =>
          have hframes : (i.endElement name).frames =
              List.replicate 0 ({} : Frame) ++ outer := (endElement_shape hf name).2
          have hlength : i.frames.length = outer.length + 1 := congrArg List.length hf
          have hlonger : marker.size ≤ outer.length := by
            rw [List.length_cons] at hanchor
            omega
          obtain ⟨left, hleft, hsuffix, hlength⟩ := ih (h.step _) hrest hframes hlonger
          exact ⟨left, hleft, hsuffix.trans (List.suffix_cons ..), hlength⟩
    | characters text =>
      have hframes : (i.characters text).frames = i.frames := by
        rw [characters, hskipping]
        rfl
      exact ih (h.step _) hrest (hframes.trans hf) hanchor
    | startDocument => cases hnow
    | endDocument => cases hnow
    | _ => exact ih (h.step _) hrest hf hanchor

end Interpreter
end LogConfig
