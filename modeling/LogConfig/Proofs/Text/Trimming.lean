import LogConfig.Text.Blank
import Mathlib.Data.List.DropRight

/-
  Trimmed texts. A stripped text is trimmed (`trimmed_strip`), and to strip a trimmed text changes
  nothing (`Trimmed.strip_eq`), so stripping twice is stripping once.
-/

namespace LogConfig.Text

/-- Neither end of the text is a character that satisfies `p`. -/
structure Trimmed (p : Char → Bool) (cs : List Char) : Prop where
  first : ∀ h : cs ≠ [], p (cs.head h) = false
  last : ∀ h : cs ≠ [], p (cs.getLast h) = false

theorem trimmed_strip (p : Char → Bool) (cs : List Char) : Trimmed p (strip p cs) where
  first h := by
    have hstart : strip p cs <+: cs.dropWhile p := List.rdropWhile_prefix p _
    rw [hstart.head h]
    exact List.head_dropWhile_not p _
  last h := Bool.eq_false_iff.2 (List.rdropWhile_last_not p _ h)

theorem Trimmed.strip_eq {p : Char → Bool} {cs : List Char} (h : Trimmed p cs) :
    strip p cs = cs := by
  have hstart : stripStart p cs = cs := List.dropWhile_eq_self_iff.2 fun hlen => by
    rw [← List.head_eq_getElem, Bool.not_eq_true]
    exact h.first (List.ne_nil_of_length_pos hlen)
  have hend : stripEnd p cs = cs :=
    List.rdropWhile_eq_self_iff.2 fun hne => Bool.eq_false_iff.1 (h.last hne)
  rw [strip, hstart, hend]

theorem strip_strip (p : Char → Bool) (cs : List Char) : strip p (strip p cs) = strip p cs :=
  (trimmed_strip p cs).strip_eq

/-- A text is stripped to nothing from its start already, or not at all. -/
theorem strip_eq_nil_iff {p : Char → Bool} {cs : List Char} :
    strip p cs = [] ↔ stripStart p cs = [] := by
  constructor
  · intro h
    by_contra hne
    have hall : ∀ c ∈ stripStart p cs, p c := List.rdropWhile_eq_nil_iff.1 h
    have hhead : p ((stripStart p cs).head hne) = false := List.head_dropWhile_not p _
    rw [hall _ (List.head_mem hne)] at hhead
    cases hhead
  · intro h
    rw [strip, h]
    rfl

end LogConfig.Text
