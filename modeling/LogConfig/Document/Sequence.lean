import LogConfig.Document.Markup

/-
  The markup of a whole document in order. Every tag read leaves less of the text, by the lemmas
  on the parts that a text is split into, so the reading ends.
-/

namespace LogConfig.Document

theorem length_breakTag (quote : Option Char) (cs : List Char) :
    (((breakTag quote cs).2).getD []).length ≤ cs.length := by
  induction cs generalizing quote with
  | nil => simp [breakTag]
  | cons c cs ih =>
    simp only [breakTag]
    split
    · simp
    · exact Nat.le_succ_of_le (ih _)

theorem length_breakClosing (cs : List Char) :
    (((breakClosing cs).2).getD []).length ≤ cs.length := by
  induction cs with
  | nil => simp [breakClosing]
  | cons c cs ih =>
    simp only [breakClosing]
    split
    · simp
    · exact Nat.le_succ_of_le ih

theorem length_breakWhere {done : List Char → Bool} {before cs content rest : List Char}
    (h : breakWhere done before cs = some (content, rest)) : rest.length ≤ cs.length := by
  induction cs generalizing before with
  | nil => simp [breakWhere] at h
  | cons c cs ih =>
    simp only [breakWhere] at h
    split at h
    · simp only [Option.some.injEq, Prod.mk.injEq] at h
      simp [← h.2]
    · exact Nat.le_succ_of_le (ih h)

/-- What is left after a reading is not longer than the text that was read from. -/
def Reading.Within (r : Reading) (cs : List Char) : Prop :=
  ∀ left, r.remaining = some left → left.rest.length ≤ cs.length

theorem proceed_within (markup : Markup) (reported : Nat) (remaining : Remaining) (cs : List Char)
    (h : remaining.rest.length ≤ cs.length) : (proceed markup reported remaining).Within cs := by
  intro left hl
  unfold proceed at hl
  split at hl
  · simp at hl
  · simp only [Option.some.injEq] at hl
    rw [← hl]; exact h

theorem readUntil_within (done : List Char → Bool) (markup : List Char → Markup)
    (unfinished : String) (names : List (List Char)) (offset : Nat) (cs : List Char) :
    (readUntil done markup unfinished names offset cs).Within cs := by
  unfold readUntil
  split
  · intro left hl; simp at hl
  · next content rest h => exact proceed_within _ _ _ _ (length_breakWhere h)

theorem readDeclaration_within (names : List (List Char)) (offset : Nat) (cs : List Char) :
    (readDeclaration names offset cs).Within cs := by
  unfold readDeclaration
  split
  · intro left hl; simp at hl
  · exact readUntil_within _ _ _ _ _ _
  · exact readUntil_within _ _ _ _ _ _
  · split
    · exact readUntil_within _ _ _ _ _ _
    · intro left hl; simp at hl

theorem readEndTag_within (names : List (List Char)) (offset : Nat) (cs : List Char) :
    (readEndTag names offset cs).Within cs := by
  intro left hl
  have hb := length_breakClosing cs
  unfold readEndTag at hl
  dsimp only at hl
  split at hl
  · simp at hl
  · simp only [Option.some.injEq] at hl
    rw [← hl]; exact hb

theorem readInstruction_within (names : List (List Char)) (offset : Nat) (cs : List Char) :
    (readInstruction names offset cs).Within cs := by
  intro left hl
  have hb := length_breakClosing cs
  unfold readInstruction at hl
  dsimp only at hl
  split at hl
  · simp only [Option.some.injEq] at hl
    rw [← hl]; exact hb
  · simp at hl

theorem readStartTag_within (names : List (List Char)) (offset : Nat) (cs : List Char) :
    (readStartTag names offset cs).Within cs := by
  intro left hl
  have hb := length_breakTag none cs
  unfold readStartTag at hl
  dsimp only at hl
  split at hl <;>
  · simp only [Option.some.injEq] at hl
    rw [← hl]; exact hb

theorem readTag_within (names : List (List Char)) (offset : Nat) (cs : List Char) :
    (readTag names offset cs).Within cs := by
  unfold readTag
  split
  · intro left hl; simp at hl
  · intro left hl
    exact Nat.le_succ_of_le (readDeclaration_within names offset _ left hl)
  · intro left hl
    exact Nat.le_succ_of_le (readEndTag_within names offset _ left hl)
  · exact readInstruction_within names offset _
  · exact readStartTag_within names offset _

/-- What follows the next `<` is shorter than the text that holds it. -/
theorem length_readText {offset : Nat} {cs inside : List Char}
    (h : (readText offset cs).2.2 = some inside) : inside.length < cs.length := by
  have h1 := (List.dropWhile_sublist (l := cs) isSpace).length_le
  have h2 := (List.dropWhile_sublist (l := cs.dropWhile isSpace) (· ≠ '<')).length_le
  unfold readText at h
  dsimp only at h
  split at h
  · simp at h
  · next c rest he =>
    rw [he] at h2
    simp only [Option.some.injEq] at h
    subst h
    simp only [List.length_cons] at h2
    omega

/-- The markup in the rest of a document, each with its reported offset. -/
def markupFrom (names : List (List Char)) (offset : Nat) (cs : List Char) : List (Markup × Nat) :=
  match _ht : readText offset cs with
  | (texts, stop, none) => texts ++ [(.endOfInput, stop)]
  | (texts, stop, some inside) =>
    match _hr : readTag names stop inside with
    | ⟨markup, reported, none⟩ => texts ++ [(markup, reported)]
    | ⟨markup, reported, some left⟩ =>
      texts ++ (markup, reported) :: markupFrom left.openNames left.offset left.rest
termination_by cs.length
decreasing_by
  have h1 := @length_readText offset cs inside (by rw [_ht])
  have h2 := readTag_within names stop inside left (by rw [_hr])
  omega

/-- The text without a byte order mark in front, which no offset counts. -/
def withoutMark : List Char → List Char
  | '\ufeff' :: cs => cs
  | cs => cs

/-- The markup of a document. -/
def markupOf (source : List Char) : List (Markup × Nat) := markupFrom [] 0 (withoutMark source)

end LogConfig.Document
