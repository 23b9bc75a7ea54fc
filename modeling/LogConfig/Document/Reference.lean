import LogConfig.Text.Bytes
import LogConfig.Text.Numeral
import LogConfig.Text.Quoted

/-
  Character references in a document: the five named ones, and numbers in decimal or hexadecimal.
  Unescaping replaces them all or fails at the first that is malformed. Places in errors are
  counted in bytes of the text as written.
-/

namespace LogConfig.Document

inductive ReferenceError where
  /-- No `;` after the `&` that starts here; the text has this many bytes. -/
  | unterminated (start size : Nat)
  | unknown (start stop : Nat) (name : String)
  | nullCharacter (start stop : Nat)
  | longHexadecimal
  | longDecimal
  | notHexadecimal (c : Char)
  | notDecimal (c : Char)
  | notCharacter (n : Nat)
deriving DecidableEq, Repr, Inhabited

namespace ReferenceError

def rangeText (start stop : Nat) : String :=
  "Error while escaping character at range " ++ Text.decimal start ++ ".." ++ Text.decimal stop ++ ": "

def message : ReferenceError → String
  | unterminated start size => rangeText start size ++ "Cannot find ';' after '&'"
  | unknown start stop name =>
    rangeText start stop ++ "Unrecognized escape symbol: " ++ Text.quoted name
  | nullCharacter start stop => rangeText start stop ++ "Null character entity not allowed"
  | longHexadecimal => "Cannot convert hexadecimal to utf8"
  | longDecimal => "Cannot convert decimal to utf8"
  | notHexadecimal c => "'" ++ c.toString ++ "' is not a valid hexadecimal character"
  | notDecimal c => "'" ++ c.toString ++ "' is not a valid decimal character"
  | notCharacter n => "'" ++ Text.decimal n ++ "' is not a valid codepoint"

end ReferenceError

/-- The characters that have a name. -/
def namedCharacters : List (List Char × Char) :=
  [(['l', 't'], '<'), (['g', 't'], '>'), (['a', 'm', 'p'], '&'), (['a', 'p', 'o', 's'], '\''),
   (['q', 'u', 'o', 't'], '"')]

/-- The number written in some base, which may have no digits, or its first other character. -/
def readNumber (base : Nat) : Nat → List Char → Except Char Nat
  | acc, [] => .ok acc
  | acc, c :: cs =>
    match Text.digitIn? base c with
    | some d => readNumber base (acc * base + d) cs
    | none => .error (Text.leadingByte c)

/-- The number that a reference gives after its `#`. -/
def referenceNumber : List Char → Except ReferenceError Nat
  | 'x' :: digits =>
    if 6 < Text.byteSize digits then .error .longHexadecimal
    else (readNumber 16 0 digits).mapError .notHexadecimal
  | digits =>
    if 7 < Text.byteSize digits then .error .longDecimal
    else (readNumber 10 0 digits).mapError .notDecimal

/-- The character that the inside of a reference means; its `&` and `;` are at these offsets. -/
def referenced (start stop : Nat) : List Char → Except ReferenceError Char
  | '#' :: number =>
    match referenceNumber number with
    | .error e => .error e
    | .ok n =>
      if n = 0 then .error (.nullCharacter start stop)
      else if n.isValidChar then .ok (Char.ofNat n)
      else .error (.notCharacter n)
  | name =>
    match namedCharacters.lookup name with
    | some c => .ok c
    | none => .error (.unknown (start + 1) stop (String.ofList name))

/-- Whether a character starts or ends a reference. -/
def isReferenceMark (c : Char) : Bool := c = '&' || c = ';'

/-- Unescapes the part of a text of `size` bytes that comes after the first `offset` bytes. -/
def unescapeFrom (size offset : Nat) : List Char → Except ReferenceError (List Char)
  | [] => .ok []
  | c :: cs =>
    if c = '&' then
      let inside := cs.takeWhile fun c => !isReferenceMark c
      let stop := offset + 1 + Text.byteSize inside
      match _h : cs.dropWhile fun c => !isReferenceMark c with
      | ';' :: rest =>
        match referenced offset stop inside with
        | .error e => .error e
        | .ok c => (unescapeFrom size (stop + 1) rest).map (c :: ·)
      | _ => .error (.unterminated offset size)
    else (unescapeFrom size (offset + c.utf8Size) cs).map (c :: ·)
termination_by cs => cs.length
decreasing_by
  · have h1 := (List.dropWhile_sublist (l := cs) fun c => !isReferenceMark c).length_le
    rw [_h] at h1
    simp only [List.length_cons] at h1 ⊢
    omega
  · simp only [List.length_cons]; omega

/-- The text with every reference replaced by its character. -/
def unescape (cs : List Char) : Except ReferenceError (List Char) :=
  unescapeFrom (Text.byteSize cs) 0 cs

end LogConfig.Document
