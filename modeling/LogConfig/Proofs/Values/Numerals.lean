import LogConfig.Text.Blank
import LogConfig.Text.Numeral
import Mathlib.Data.Nat.Digits.Defs
import Mathlib.Tactic.Ring

/-
  What the numerals read as. A number is read from exactly the digits that write it: the digits
  are those of the base, in either case, and the number is their positional value
  (`readDigits_eq_some_iff`); an integer has a sign before them or none (`readInt_eq_some_iff`).
  Around a text without blanks, blanks do not count (`Pads.strip_eq`).
-/

namespace LogConfig.Text

/-- The digits of the bases up to sixteen, in the order of their values. -/
def alphabet : List Char := "0123456789abcdef".toList

/-- The character is the digit of this value, in either case. -/
def IsDigit (base : Nat) (c : Char) (d : Nat) : Prop := d < base ∧ alphabet[d]? = some c.toLower

/-- One or more digits, the most significant first, write the number. -/
def Writes (base : Nat) (cs : List Char) (n : Nat) : Prop :=
  cs ≠ [] ∧ ∃ ds, List.Forall₂ (IsDigit base) cs ds ∧ n = Nat.ofDigits base ds.reverse

theorem toNat_toLower (c : Char) :
    c.toLower.toNat = if 0x41 ≤ c.toNat ∧ c.toNat ≤ 0x5A then c.toNat + 32 else c.toNat := by
  unfold Char.toLower
  split
  · next h =>
    have h' : 0x41 ≤ c.toNat ∧ c.toNat ≤ 0x5A := h
    rw [if_pos h']
    show (c.val + ('a'.val - 'A'.val)).toNat = c.val.toNat + 32
    have hc : c.val.toNat ≤ 0x5A := h'.2
    have ha : ('a'.val - 'A'.val).toNat = 32 := rfl
    rw [UInt32.toNat_add, ha]
    omega
  · next h =>
    have h' : ¬ (0x41 ≤ c.toNat ∧ c.toNat ≤ 0x5A) := h
    rw [if_neg h']

theorem digitValue?_toLower (c : Char) : digitValue? c.toLower = digitValue? c := by
  have h := toNat_toLower c
  simp only [digitValue?, Bool.and_eq_true, decide_eq_true_eq]
  grind

theorem digitValue?_eq_some_iff {c : Char} {d : Nat} :
    digitValue? c = some d ↔ alphabet[d]? = some c.toLower := by
  have numbered : ∀ d < 16, (digitChar d).toNat = if d < 10 then d + 0x30 else d + 0x57 := by decide
  have listed : ∀ d < 16, alphabet[d]? = some (digitChar d) := by decide
  constructor
  · intro h
    have hx := toNat_toLower c
    rw [← digitValue?_toLower] at h
    simp only [digitValue?, Bool.and_eq_true, decide_eq_true_eq] at h
    have hd : d < 16 ∧ c.toLower.toNat = if d < 10 then d + 0x30 else d + 0x57 := by grind
    have hchar : c.toLower = digitChar d := by
      apply Char.toNat_inj.1
      rw [hd.2, numbered d hd.1]
    rw [hchar, listed d hd.1]
  · intro h
    have hd : d < 16 := (List.getElem?_eq_some_iff.1 h).1
    rw [listed d hd, Option.some.injEq] at h
    rw [← digitValue?_toLower, ← h, digitValue?_digitChar d hd]

theorem digitIn?_eq_some_iff {base : Nat} {c : Char} {d : Nat} :
    digitIn? base c = some d ↔ IsDigit base c d := by
  rw [digitIn?, Option.filter_eq_some_iff, digitValue?_eq_some_iff, decide_eq_true_eq, and_comm]
  rfl

/-- Reading goes on where it stands: the digits before count for as many places as follow. -/
theorem readDigitsFrom_eq_some_iff {base acc : Nat} {cs : List Char} {n : Nat} :
    readDigitsFrom base acc cs = some n ↔
      ∃ ds, List.Forall₂ (IsDigit base) cs ds ∧
        n = acc * base ^ ds.length + Nat.ofDigits base ds.reverse := by
  induction cs generalizing acc with
  | nil =>
    rw [readDigitsFrom, Option.some.injEq]
    constructor
    · rintro rfl
      exact ⟨[], .nil, by simp⟩
    · rintro ⟨ds, hds, rfl⟩
      cases hds
      simp
  | cons c cs ih =>
    have horner : ∀ d ds, (acc * base + d) * base ^ ds.length + Nat.ofDigits base ds.reverse =
        acc * base ^ (d :: ds).length + Nat.ofDigits base (d :: ds).reverse := by
      intro d ds
      rw [List.reverse_cons, Nat.ofDigits_append, Nat.ofDigits_singleton, List.length_reverse,
        List.length_cons, Nat.pow_succ]
      ring
    constructor
    · intro h
      rw [readDigitsFrom] at h
      split at h
      · next d hd =>
        obtain ⟨ds, hds, rfl⟩ := ih.1 h
        exact ⟨d :: ds, .cons (digitIn?_eq_some_iff.1 hd) hds, horner d ds⟩
      · simp at h
    · rintro ⟨_, _ | ⟨hd, hds⟩, rfl⟩
      rw [readDigitsFrom, digitIn?_eq_some_iff.2 hd]
      exact ih.2 ⟨_, hds, (horner _ _).symm⟩

/-- A number is read from the digits that write it and from nothing else. -/
theorem readDigits_eq_some_iff {base : Nat} {cs : List Char} {n : Nat} :
    readDigits base cs = some n ↔ Writes base cs n := by
  cases cs with
  | nil => simp [readDigits, Writes]
  | cons c cs =>
    rw [readDigits, readDigitsFrom_eq_some_iff, Writes]
    simp

/-! ### Integers with blanks around them -/

/-- An integer as written: decimal digits with a sign before them, or with none. -/
inductive WritesInt : List Char → Int → Prop where
  | unsigned {ds : List Char} {n : Nat} : Writes 10 ds n → WritesInt ds n
  | plus {ds : List Char} {n : Nat} : Writes 10 ds n → WritesInt ('+' :: ds) n
  | minus {ds : List Char} {n : Nat} : Writes 10 ds n → WritesInt ('-' :: ds) (-n)

/-- Digits are neither blanks nor signs. -/
theorem Writes.plain {base : Nat} {cs : List Char} {n : Nat} (h : Writes base cs n) :
    ∀ c ∈ cs, isBlank c = false ∧ c ≠ '+' ∧ c ≠ '-' := by
  obtain ⟨-, ds, hds, -⟩ := h
  induction hds with
  | nil => simp
  | @cons c d cs ds hd _ ih =>
    have hvalue := digitValue?_eq_some_iff.2 hd.2
    have hrange : 0x30 ≤ c.toNat ∧ c.toNat ≤ 0x66 := by
      simp only [digitValue?, Bool.and_eq_true, decide_eq_true_eq] at hvalue
      grind
    have hplain : isBlank c = false ∧ c ≠ '+' ∧ c ≠ '-' := by
      refine ⟨?_, ?_, ?_⟩
      · simp only [isBlank, inRanges, blankRanges, List.any_cons, List.any_nil]
        simp
        omega
      · rintro rfl
        exact absurd hrange.1 (by decide)
      · rintro rfl
        exact absurd hrange.1 (by decide)
    simpa [hplain] using ih

theorem WritesInt.not_blank {cs : List Char} {z : Int} (h : WritesInt cs z) :
    ∀ c ∈ cs, isBlank c = false := by
  have signed : ∀ {sign : Char} {ds : List Char} {n : Nat}, isBlank sign = false →
      Writes 10 ds n → ∀ c ∈ sign :: ds, isBlank c = false := by
    intro sign ds n hsign hds c hc
    obtain rfl | hc := List.mem_cons.1 hc
    · exact hsign
    · exact (hds.plain c hc).1
  cases h with
  | unsigned h => exact fun c hc => (h.plain c hc).1
  | plus h => exact signed (by decide) h
  | minus h => exact signed (by decide) h

theorem readInt_eq_some_iff {cs : List Char} {z : Int} :
    readInt cs = some z ↔ WritesInt cs z := by
  constructor
  · intro h
    unfold readInt at h
    split at h
    · obtain ⟨n, hn, rfl⟩ := Option.map_eq_some_iff.1 h
      exact .plus (readDigits_eq_some_iff.1 hn)
    · obtain ⟨n, hn, rfl⟩ := Option.map_eq_some_iff.1 h
      exact .minus (readDigits_eq_some_iff.1 hn)
    · obtain ⟨n, hn, rfl⟩ := Option.map_eq_some_iff.1 h
      exact .unsigned (readDigits_eq_some_iff.1 hn)
  · intro h
    cases h with
    | plus h => simp [readInt, readDigits_eq_some_iff.2 h]
    | minus h => simp [readInt, readDigits_eq_some_iff.2 h]
    | unsigned h =>
      have hplain := h.plain
      unfold readInt
      split
      · exact absurd rfl (hplain _ List.mem_cons_self).2.1
      · exact absurd rfl (hplain _ List.mem_cons_self).2.2
      · rw [readDigits_eq_some_iff.2 h]
        rfl

/-- The text is another one with blanks around it. -/
def Pads (core cs : List Char) : Prop :=
  ∃ before after, cs = before ++ core ++ after ∧ (∀ c ∈ before, isBlank c = true) ∧
    ∀ c ∈ after, isBlank c = true

theorem pads_strip (cs : List Char) : Pads (strip isBlank cs) cs := by
  refine ⟨cs.takeWhile isBlank, ((stripStart isBlank cs).reverse.takeWhile isBlank).reverse, ?_,
    ?_, ?_⟩
  · rw [strip, stripEnd, List.append_assoc, ← List.reverse_append,
      List.takeWhile_append_dropWhile, List.reverse_reverse, stripStart,
      List.takeWhile_append_dropWhile]
  · exact List.all_eq_true.1 List.all_takeWhile
  · intro c hc
    exact List.all_eq_true.1 List.all_takeWhile c (List.mem_reverse.1 hc)

/-- A text without blanks is what is left when those around it are removed. -/
theorem Pads.strip_eq {core cs : List Char} (h : Pads core cs)
    (hcore : ∀ c ∈ core, isBlank c = false) : strip isBlank cs = core := by
  have kept : ∀ {ds : List Char}, (∀ c ∈ ds, isBlank c = false) → ds.dropWhile isBlank = ds := by
    intro ds hds
    cases ds with
    | nil => rfl
    | cons d ds => simp [hds d List.mem_cons_self]
  obtain ⟨before, after, rfl, hbefore, hafter⟩ := h
  have hstart : stripStart isBlank (before ++ core ++ after) =
      (core ++ after).dropWhile isBlank := by
    rw [stripStart, List.append_assoc, List.dropWhile_append_of_pos hbefore]
  have hend : stripEnd isBlank (core ++ after) = core := by
    rw [stripEnd, List.reverse_append,
      List.dropWhile_append_of_pos fun c hc => hafter c (List.mem_reverse.1 hc),
      kept fun c hc => hcore c (List.mem_reverse.1 hc), List.reverse_reverse]
  rw [strip, hstart]
  cases core with
  | nil =>
    have hnone : after.dropWhile isBlank = [] := by
      rw [← List.append_nil after, List.dropWhile_append_of_pos hafter, List.dropWhile_nil]
    rw [List.nil_append, hnone]
    rfl
  | cons c core =>
    rw [List.cons_append, List.dropWhile_cons_of_neg (by simp [hcore c List.mem_cons_self]),
      ← List.cons_append, hend]

end LogConfig.Text
