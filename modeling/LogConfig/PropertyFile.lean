import LogConfig.Text.Blank
import LogConfig.Text.Numeral

/-
  Property files: one key and value per logical line. A logical line goes on over every line
  that ends in an odd number of backslashes; lines that are empty or start with `#` or `!` are
  left out; `=`, `:` or blanks separate key and value; a backslash escapes what follows it.
-/

namespace LogConfig.PropertyFile

/-- The lines of a text, which end at a line feed with an optional carriage return before it. A
text that ends in a line feed has no further, empty line. -/
def lines : List Char → List (List Char)
  | [] => []
  | '\n' :: rest => [] :: lines rest
  | '\r' :: '\n' :: rest => [] :: lines rest
  | c :: rest =>
    match lines rest with
    | [] => [[c]]
    | line :: more => (c :: line) :: more

/-- Whether a line ends in an odd number of backslashes. -/
def continues (line : List Char) : Bool := (line.reverse.takeWhile (· = '\\')).length % 2 = 1

/-- A logical line that begins with `line`, and the lines after it. -/
def joinContinued (line : List Char) : List (List Char) → List Char × List (List Char)
  | [] => (if continues line then line.dropLast else line, [])
  | next :: rest =>
    if continues line then
      joinContinued (line.dropLast ++ Text.stripStart Text.isBlank next) rest
    else (line, next :: rest)

theorem length_joinContinued (line : List Char) (rest : List (List Char)) :
    (joinContinued line rest).2.length ≤ rest.length := by
  induction rest generalizing line with
  | nil => simp [joinContinued]
  | cons next rest ih =>
    simp only [joinContinued]
    split
    · exact Nat.le_succ_of_le (ih _)
    · exact Nat.le_refl _

/-- Whether a line, its indentation removed, holds no entry. -/
def isSkipped : List Char → Bool
  | [] => true
  | c :: _ => c = '#' || c = '!'

/-- The logical lines that hold entries, without their indentation. -/
def logicalLines : List (List Char) → List (List Char)
  | [] => []
  | line :: rest =>
    let start := Text.stripStart Text.isBlank line
    if isSkipped start then logicalLines rest
    else (joinContinued start rest).1 :: logicalLines (joinContinued start rest).2
termination_by ls => ls.length
decreasing_by
  · simp
  · exact Nat.lt_succ_of_le (length_joinContinued _ _)

/-- What follows the blanks after a key: without them and without one `=` or `:`. -/
def afterGap (rest : List Char) : List Char :=
  match Text.stripStart Text.isBlank rest with
  | '=' :: value => value
  | ':' :: value => value
  | value => value

/-- Splits an entry at the first separator that is not escaped: key and value, as written. -/
def splitEntry : List Char → List Char × List Char
  | [] => ([], [])
  | ['\\'] => (['\\'], [])
  | '\\' :: c :: rest => ('\\' :: c :: (splitEntry rest).1, (splitEntry rest).2)
  | c :: rest =>
    if c = '=' || c = ':' then ([], rest)
    else if Text.isBlank c then ([], afterGap (c :: rest))
    else (c :: (splitEntry rest).1, (splitEntry rest).2)

/-- The character with a number, if the number is that of a character. -/
def charOfNat? (n : Nat) : Option Char := if n.isValidChar then some (Char.ofNat n) else none

/-- The character whose number these hexadecimal digits give; a plus sign may stand before them. -/
def charOfHex? : List Char → Option Char
  | '+' :: ds => (Text.readDigits 16 ds).bind charOfNat?
  | ds => (Text.readDigits 16 ds).bind charOfNat?

/-- Replaces the escapes of a key or value. After `\u` up to four characters are taken as the
number of a character, and are kept as written when they are not one. -/
def unescape : List Char → List Char
  | [] => []
  | '\\' :: [] => []
  | '\\' :: 't' :: rest => '\t' :: unescape rest
  | '\\' :: 'n' :: rest => '\n' :: unescape rest
  | '\\' :: 'r' :: rest => '\r' :: unescape rest
  | '\\' :: 'f' :: rest => '\x0c' :: unescape rest
  | '\\' :: 'u' :: rest =>
    match charOfHex? (rest.take 4) with
    | some c => c :: unescape (rest.drop 4)
    | none => '\\' :: 'u' :: rest.take 4 ++ unescape (rest.drop 4)
  | '\\' :: c :: rest => c :: unescape rest
  | c :: rest => c :: unescape rest
termination_by cs => cs.length

/-- The key and value of a logical line. -/
def entry (line : List Char) : String × String :=
  (String.ofList (unescape (splitEntry line).1),
   String.ofList (unescape (Text.stripStart Text.isBlank (splitEntry line).2)))

/-- The keys and values of a property file, in order. -/
def parse (text : String) : List (String × String) := (logicalLines (lines text.toList)).map entry

end LogConfig.PropertyFile
