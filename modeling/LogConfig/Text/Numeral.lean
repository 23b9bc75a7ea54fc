/-
  Numerals: natural numbers written in a base from two to sixteen, and decimal integers with an
  optional sign. `readDigits_digits`: reading the digits of a number gives the number back.
-/

namespace LogConfig.Text

/-- Value of a digit; the letters `a` to `f` count in either case. -/
def digitValue? (c : Char) : Option Nat :=
  let n := c.toNat
  if 0x30 ≤ n && n ≤ 0x39 then some (n - 0x30)
  else if 0x61 ≤ n && n ≤ 0x66 then some (n - 0x57)
  else if 0x41 ≤ n && n ≤ 0x46 then some (n - 0x37)
  else none

/-- Value of a digit of the given base. -/
def digitIn? (base : Nat) (c : Char) : Option Nat := (digitValue? c).filter (· < base)

/-- Continues a number with further digits; fails at the first character that is no digit. -/
def readDigitsFrom (base : Nat) : Nat → List Char → Option Nat
  | acc, [] => some acc
  | acc, c :: cs =>
    match digitIn? base c with
    | some d => readDigitsFrom base (acc * base + d) cs
    | none => none

/-- The number written by one or more digits and nothing else. -/
def readDigits (base : Nat) : List Char → Option Nat
  | [] => none
  | c :: cs => readDigitsFrom base 0 (c :: cs)

/-- The integer written by an optional sign and one or more decimal digits. -/
def readInt : List Char → Option Int
  | '+' :: cs => (readDigits 10 cs).map Int.ofNat
  | '-' :: cs => (readDigits 10 cs).map fun n => -Int.ofNat n
  | cs => (readDigits 10 cs).map Int.ofNat

/-- The digit of a value below sixteen, in lower case. -/
def digitChar (n : Nat) : Char :=
  if n < 10 then Char.ofNat (n + 0x30) else Char.ofNat (n + 0x57)

/-- Digits of a number in a base, most significant first; zero has one digit. -/
def digits (base n : Nat) : List Char :=
  if 2 ≤ base ∧ base ≤ n then digits base (n / base) ++ [digitChar (n % base)]
  else [digitChar n]
termination_by n
decreasing_by exact Nat.div_lt_self (by omega) (by omega)

/-- Decimal text of a number. -/
def decimal (n : Nat) : String := String.ofList (digits 10 n)

/-- Lower-case hexadecimal text of a number. -/
def hexadecimal (n : Nat) : String := String.ofList (digits 16 n)

/-- Decimal text of an integer, with a minus sign in front of a negative one. -/
def intDecimal : Int → String
  | .ofNat n => decimal n
  | .negSucc n => "-" ++ decimal (n + 1)

theorem readDigitsFrom_append (base acc : Nat) (cs ds : List Char) :
    readDigitsFrom base acc (cs ++ ds) =
      (readDigitsFrom base acc cs).bind fun n => readDigitsFrom base n ds := by
  induction cs generalizing acc with
  | nil => rfl
  | cons c cs ih =>
    simp only [List.cons_append, readDigitsFrom]
    cases digitIn? base c with
    | none => rfl
    | some d => exact ih _

theorem digitValue?_digitChar : ∀ n < 16, digitValue? (digitChar n) = some n := by decide

theorem digitIn?_digitChar {base n : Nat} (hb : base ≤ 16) (h : n < base) :
    digitIn? base (digitChar n) = some n := by
  simp [digitIn?, digitValue?_digitChar n (by omega), h]

theorem digits_ne_nil (base n : Nat) : digits base n ≠ [] := by
  rw [digits]; split <;> simp

theorem readDigits_eq {base : Nat} {cs : List Char} (h : cs ≠ []) :
    readDigits base cs = readDigitsFrom base 0 cs := by
  cases cs with
  | nil => exact absurd rfl h
  | cons => rfl

/-- Reading the digits of a number gives the number back. -/
theorem readDigits_digits {base : Nat} (hb : 2 ≤ base) (hb' : base ≤ 16) (n : Nat) :
    readDigits base (digits base n) = some n := by
  rw [readDigits_eq (digits_ne_nil base n)]
  induction n using Nat.strongRecOn with
  | ind n ih =>
    rw [digits]
    split
    · next h =>
      have hd : n % base < base := Nat.mod_lt _ (by omega)
      rw [readDigitsFrom_append, ih (n / base) (Nat.div_lt_self (by omega) (by omega))]
      simp [readDigitsFrom, digitIn?_digitChar hb' hd, Nat.mul_comm, Nat.div_add_mod]
    · next h =>
      have hd : n < base := by omega
      simp [readDigitsFrom, digitIn?_digitChar hb' hd]

end LogConfig.Text
