import LogConfig.Proofs.Document.Places
import Mathlib.Data.List.Infix

/-
  The tracker against a count from the start. A tracker is asked for one offset after the other,
  in any order. What it answers is the place at the greatest offset asked for so far, or at the end
  of the text if that comes first (`Tracker.places_exact`), and so its answers never decrease
  (`Tracker.places_pairwise`). The latter also holds where an offset is inside a character, which is
  what a reader reports of a text with a byte order mark; the places of a document are answers of
  one tracker (`places_eventsFrom`).
-/

namespace LogConfig

/-! ### The order of places -/

namespace Location

/-- By line, and within a line by column. -/
instance : LE Location where
  le l m := l.line < m.line ∨ l.line = m.line ∧ l.column ≤ m.column

theorem le_def {l m : Location} : l ≤ m ↔ l.line < m.line ∨ l.line = m.line ∧ l.column ≤ m.column :=
  Iff.rfl

instance : DecidableLE Location := fun _ _ => decidable_of_iff _ le_def.symm

theorem le_refl (l : Location) : l ≤ l := .inr ⟨rfl, Nat.le_refl _⟩

theorem le_trans {l m n : Location} (h : l ≤ m) (h' : m ≤ n) : l ≤ n := by
  rw [le_def] at h h' ⊢
  omega

end Location

/-- The place that an event tells. -/
def DocumentEvent.place? : DocumentEvent → Option Location
  | .place location => some location
  | _ => none

namespace Document

open Text

theorem le_after (l : Location) (c : Char) : l ≤ after l c := by
  unfold after
  split
  · exact .inl (Nat.lt_succ_self _)
  · exact .inr ⟨rfl, Nat.le_succ _⟩

theorem le_foldl_after (l : Location) (cs : List Char) : l ≤ cs.foldl after l := by
  induction cs generalizing l with
  | nil => exact l.le_refl
  | cons c cs ih => exact Location.le_trans (le_after l c) (ih _)

namespace Tracker

/-! ### The answers of a tracker -/

/-- The places that a tracker comes to for offsets asked for one after the other. -/
def places (source : List Char) : Tracker → List Nat → List Location
  | _, [] => []
  | t, offset :: later =>
    let moved := t.advance source offset
    moved.location :: moved.places source later

theorem le_advance (source : List Char) (t : Tracker) (offset : Nat) :
    t.location ≤ (t.advance source offset).location := by
  unfold advance
  dsimp only
  split
  · exact le_foldl_after _ _
  · exact t.location.le_refl

theorem le_places (source : List Char) (t : Tracker) (offsets : List Nat) :
    ∀ place ∈ t.places source offsets, t.location ≤ place := by
  induction offsets generalizing t with
  | nil => exact fun _ h => absurd h List.not_mem_nil
  | cons offset later ih =>
    have hmoved := t.le_advance source offset
    exact List.forall_mem_cons.2 ⟨hmoved, fun place h => Location.le_trans hmoved (ih _ place h)⟩

/-- The answers never decrease, whatever is asked for. -/
theorem places_pairwise (source : List Char) (t : Tracker) (offsets : List Nat) :
    (t.places source offsets).Pairwise (· ≤ ·) := by
  induction offsets generalizing t with
  | nil => exact .nil
  | cons offset later ih =>
    let moved := t.advance source offset
    exact .cons (moved.le_places source later) (ih moved)

end Tracker

/-! ### The answers counted from the start -/

/-- The offset is that behind some characters at the start of the text, or it is past the end. -/
def Boundary (source : List Char) (offset : Nat) : Prop :=
  (∃ before, before <+: source ∧ byteSize before = offset) ∨ byteSize source < offset

instance (source : List Char) (offset : Nat) : Decidable (Boundary source offset) :=
  decidable_of_iff
    ((∃ before ∈ source.inits, byteSize before = offset) ∨ byteSize source < offset)
    (by simp only [Boundary, List.mem_inits])

/-- The place at an offset of a text, or at the end of the text if that comes first: it follows
the text up to there. -/
def IsPlaceAt (source : List Char) (offset : Nat) (place : Location) : Prop :=
  ∃ before, before <+: source ∧ byteSize before = min offset (byteSize source) ∧
    place = placeAfter before

/-- The greatest of some offsets. -/
def greatest (offsets : List Nat) : Nat := offsets.foldr max 0

theorem byteSize_le_of_isPrefix {cs ds : List Char} (h : cs <+: ds) :
    byteSize cs ≤ byteSize ds := by
  obtain ⟨more, rfl⟩ := h
  rw [byteSize_append]
  exact Nat.le_add_right _ _

/-- Of two parts that a text starts with, the one of fewer bytes starts the other. -/
theorem isPrefix_of_byteSize_le {source cs ds : List Char} (hcs : cs <+: source)
    (hds : ds <+: source) (h : byteSize cs ≤ byteSize ds) : cs <+: ds := by
  rcases List.prefix_or_prefix_of_prefix hcs hds with hprefix | ⟨more, rfl⟩
  · exact hprefix
  · rw [byteSize_append] at h
    obtain rfl : more = [] := eq_nil_of_byteSize (by omega)
    simp

/-- Up to an offset, or up to the end of the text if that comes first, it is whole characters. -/
theorem Boundary.exists_before {source : List Char} {offset : Nat} (h : Boundary source offset) :
    ∃ before, before <+: source ∧ byteSize before = min offset (byteSize source) := by
  rcases h with ⟨before, hbefore, rfl⟩ | hpast
  · exact ⟨before, hbefore, (Nat.min_eq_left (byteSize_le_of_isPrefix hbefore)).symm⟩
  · exact ⟨source, List.prefix_refl _, (Nat.min_eq_right (Nat.le_of_lt hpast)).symm⟩

/-- A tracker moves on to an offset that it has not reached, and it stays where it is at any
other. -/
theorem Tracker.Counts.advance_boundary {source read : List Char} {t : Tracker} (h : t.Counts read)
    (hread : read <+: source) {offset : Nat} (hoffset : Boundary source offset) :
    ∃ reached, reached <+: source ∧ (t.advance source offset).Counts reached ∧
      byteSize reached = max (byteSize read) (min offset (byteSize source)) := by
  obtain ⟨before, hbefore, hsize⟩ := hoffset.exists_before
  have hstop : t.advance source offset = t.advance source (byteSize before) := by
    unfold Tracker.advance
    rw [hsize, Nat.min_assoc, Nat.min_self]
  rcases Nat.le_total (byteSize read) (byteSize before) with hle | hle
  · refine ⟨before, hbefore, ?_, by omega⟩
    rw [hstop]
    exact h.advance (isPrefix_of_byteSize_le hread hbefore hle) hbefore
  · refine ⟨read, hread, ?_, by omega⟩
    have hstays : ¬ t.offset < min offset (byteSize source) := by
      rw [h.offset, ← hsize]
      exact Nat.not_lt.2 hle
    unfold Tracker.advance
    rw [if_neg hstays]
    exact h

theorem Tracker.Counts.places {source read : List Char} {t : Tracker} (h : t.Counts read)
    (hread : read <+: source) {offsets : List Nat} (ho : ∀ offset ∈ offsets, Boundary source offset)
    {i : Nat} (hi : i < offsets.length) :
    ∃ reached, reached <+: source ∧
      byteSize reached =
        max (byteSize read) (min (greatest (offsets.take (i + 1))) (byteSize source)) ∧
      (t.places source offsets)[i]? = some (placeAfter reached) := by
  induction offsets generalizing t read i with
  | nil => cases hi
  | cons offset later ih =>
    obtain ⟨hoffset, hlater⟩ := List.forall_mem_cons.1 ho
    obtain ⟨moved, hmoved, hcounts, hsize⟩ := h.advance_boundary hread hoffset
    cases i with
    | zero =>
      refine ⟨moved, hmoved, ?_, congrArg some hcounts.location⟩
      rw [hsize, List.take_succ_cons, List.take_zero, greatest, List.foldr_cons, List.foldr_nil,
        Nat.max_zero]
    | succ i =>
      obtain ⟨reached, hreached, hreachedSize, hplace⟩ :=
        ih hcounts hmoved hlater (Nat.lt_of_succ_lt_succ hi)
      refine ⟨reached, hreached, ?_, hplace⟩
      have hgreatest : greatest ((offset :: later).take (i + 1 + 1)) =
          max offset (greatest (later.take (i + 1))) := rfl
      rw [hgreatest]
      omega

/-- What a new tracker answers is the place at the greatest offset asked for so far. -/
theorem Tracker.places_exact {source : List Char} {offsets : List Nat}
    (h : ∀ offset ∈ offsets, Boundary source offset) {i : Nat} (hi : i < offsets.length) :
    ∃ place, (({} : Tracker).places source offsets)[i]? = some place ∧
      IsPlaceAt source (greatest (offsets.take (i + 1))) place := by
  have hnew : ({} : Tracker).Counts [] := ⟨rfl, rfl⟩
  obtain ⟨reached, hreached, hsize, hplace⟩ := hnew.places List.nil_prefix h hi
  rw [byteSize_nil, Nat.zero_max] at hsize
  exact ⟨_, hplace, reached, hreached, hsize, rfl⟩

/-! ### The places of a document -/

theorem place?_eventsOfMarkup (markup : Markup) :
    (eventsOfMarkup markup).filterMap DocumentEvent.place? = [] := by
  refine List.filterMap_eq_nil_iff.2 fun e he => ?_
  cases e with
  | place location =>
    cases markup with
    | openTag content nameLength closed =>
      rcases List.mem_append.1 he with he | he
      · obtain ⟨message, heq⟩ := attributeFaults_error _ _ he
        cases heq
      · cases closed <;> simp at he
    | text raw =>
      unfold eventsOfMarkup at he
      dsimp only at he
      split at he <;> simp at he
    | _ => simp [eventsOfMarkup] at he
  | _ => rfl

/-- The places told in a document are what its tracker answers. -/
theorem places_eventsFrom (source : List Char) (t : Tracker) (pieces : List (Markup × Nat)) :
    (eventsFrom source t pieces).filterMap DocumentEvent.place? =
      t.places source (pieces.map (placeOffset source)) := by
  induction pieces generalizing t with
  | nil => rfl
  | cons piece rest ih =>
    let moved := t.advance source (placeOffset source piece)
    have htold : eventsFrom source t (piece :: rest) =
        [.place moved.location] ++ (eventsOfMarkup piece.1 ++ eventsFrom source moved rest) := rfl
    rw [htold, List.filterMap_append, List.filterMap_append, place?_eventsOfMarkup, ih moved]
    rfl

end Document
end LogConfig
