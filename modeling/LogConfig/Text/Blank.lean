/-
  Blank characters and trimming. A character is blank when it has the Unicode property
  White_Space; trimming a text removes the blank characters at its ends and no others.
-/

namespace LogConfig.Text

/-- The code points with the property White_Space, as inclusive ranges. -/
def blankRanges : List (Nat × Nat) :=
  [(0x9, 0xD), (0x20, 0x20), (0x85, 0x85), (0xA0, 0xA0), (0x1680, 0x1680), (0x2000, 0x200A),
   (0x2028, 0x2029), (0x202F, 0x202F), (0x205F, 0x205F), (0x3000, 0x3000)]

/-- Membership of a code point in a list of inclusive ranges. -/
def inRanges (ranges : List (Nat × Nat)) (n : Nat) : Bool :=
  ranges.any fun r => r.1 ≤ n && n ≤ r.2

def isBlank (c : Char) : Bool := inRanges blankRanges c.toNat

/-- Without the leading characters that satisfy `p`. -/
def stripStart (p : Char → Bool) (cs : List Char) : List Char := cs.dropWhile p

/-- Without the trailing characters that satisfy `p`. -/
def stripEnd (p : Char → Bool) (cs : List Char) : List Char := (cs.reverse.dropWhile p).reverse

def strip (p : Char → Bool) (cs : List Char) : List Char := stripEnd p (stripStart p cs)

/-- The text without the blank characters around it. -/
def trim (s : String) : String := String.ofList (strip isBlank s.toList)

/-- The text without the blank characters before it. -/
def trimStart (s : String) : String := String.ofList (stripStart isBlank s.toList)

/-- The text without the blank characters after it. -/
def trimEnd (s : String) : String := String.ofList (stripEnd isBlank s.toList)

/-- Equality of texts in which ASCII letters are told apart by spelling only, not by case. -/
def eqIgnoringCase (s t : String) : Bool :=
  s.toList.map Char.toLower == t.toList.map Char.toLower

end LogConfig.Text
