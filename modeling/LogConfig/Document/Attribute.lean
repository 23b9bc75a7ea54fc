import LogConfig.Text.Bytes
import LogConfig.Text.Numeral

/-
  The attributes of a tag: keys and quoted values as written. Reading goes on behind a malformed
  attribute where that is possible. Places in errors are byte offsets in the content of the tag.
-/

namespace LogConfig.Document

/-- The blanks of markup: space, tab, carriage return and line feed. -/
def isSpace (c : Char) : Bool := c = ' ' || c = '\t' || c = '\r' || c = '\n'

inductive AttributeError where
  | expectedEquals (place : Nat)
  | duplicated (place previous : Nat)
  | expectedValue (place : Nat)
  | unquotedValue (place : Nat)
  | expectedQuote (place : Nat) (quote : Char)
deriving DecidableEq, Repr, Inhabited

namespace AttributeError

def message : AttributeError → String
  | expectedEquals place =>
    "position " ++ Text.decimal place ++
      ": attribute key must be directly followed by \x60=\x60 or space"
  | duplicated place previous =>
    "position " ++ Text.decimal place ++
      ": duplicated attribute, previous declaration at position " ++ Text.decimal previous
  | expectedValue place =>
    "position " ++ Text.decimal place ++ ": \x60=\x60 must be followed by an attribute value"
  | unquotedValue place =>
    "position " ++ Text.decimal place ++
      ": attribute value must be enclosed in \x60\"\x60 or \x60'\x60"
  | expectedQuote place quote =>
    "position " ++ Text.decimal place ++ ": missing closing quote \x60" ++ quote.toString ++
      "\x60 in attribute value"

end AttributeError

/-- A character with its byte offset. -/
abbrev PlacedChar := Nat × Char

/-- The characters of a text with their byte offsets, the first at `offset`. -/
def placed : Nat → List Char → List PlacedChar
  | _, [] => []
  | offset, c :: cs => (offset, c) :: placed (offset + c.utf8Size) cs

/-- Without the blanks in front. -/
def skipSpace (cs : List PlacedChar) : List PlacedChar := cs.dropWhile fun p => isSpace p.2

/-- From the first blank on. -/
def toSpace (cs : List PlacedChar) : List PlacedChar := cs.dropWhile fun p => !isSpace p.2

/-- Whether a character goes on with a key. The first character of a key can be any but a blank. -/
def isKeyChar (p : PlacedChar) : Bool := !(p.2 = '=' || isSpace p.2)

theorem length_skipSpace_le (cs : List PlacedChar) : (skipSpace cs).length ≤ cs.length :=
  (List.dropWhile_sublist _).length_le

theorem length_toSpace_le (cs : List PlacedChar) : (toSpace cs).length ≤ cs.length :=
  (List.dropWhile_sublist _).length_le

theorem length_dropWhile_keyChar_le (cs : List PlacedChar) :
    (cs.dropWhile isKeyChar).length ≤ cs.length :=
  (List.dropWhile_sublist _).length_le

/-- The attributes in the rest of a tag whose content has `size` bytes: keys and raw values, or
what is wrong. The keys met so far are given with their places. -/
def readAttributes (size : Nat) (seen : List (List Char × Nat)) (cs : List PlacedChar) :
    List (Except AttributeError (List Char × List Char)) :=
  match _hs : skipSpace cs with
  | [] => []
  | (start, c) :: tail =>
    let key := c :: (tail.takeWhile isKeyChar).map Prod.snd
    match _hk : skipSpace (tail.dropWhile isKeyChar) with
    | [] => [.error (.expectedEquals size)]
    | (place, d) :: afterKey =>
      if d ≠ '=' then
        .error (.expectedEquals place) :: readAttributes size seen ((place, d) :: afterKey)
      else
        match seen.lookup key with
        | some previous =>
          .error (.duplicated start previous) :: readAttributes size seen (toSpace afterKey)
        | none =>
          let seen := (key, start) :: seen
          match _hv : skipSpace afterKey with
          | [] => [.error (.expectedValue size)]
          | (place, quote) :: value =>
            if quote = '"' || quote = '\'' then
              match _hq : value.dropWhile fun p => p.2 ≠ quote with
              | [] => [.error (.expectedQuote size quote)]
              | _ :: rest =>
                .ok (key, (value.takeWhile fun p => p.2 ≠ quote).map Prod.snd) ::
                  readAttributes size seen rest
            else
              .error (.unquotedValue place) ::
                readAttributes size seen (toSpace ((place, quote) :: value))
termination_by cs.length
decreasing_by
  all_goals
    have h0 := length_skipSpace_le cs
    rw [_hs] at h0
    have h1 := length_skipSpace_le (tail.dropWhile isKeyChar)
    rw [_hk] at h1
    have h2 := length_dropWhile_keyChar_le tail
    simp only [List.length_cons] at h0 h1 h2
  · simp only [List.length_cons]
    omega
  · have h3 := length_toSpace_le afterKey
    omega
  · have h3 := length_skipSpace_le afterKey
    rw [_hv] at h3
    have h4 := (List.dropWhile_sublist (l := value) fun p => p.2 ≠ quote).length_le
    rw [_hq] at h4
    simp only [List.length_cons] at h3 h4
    omega
  · have h3 := length_skipSpace_le afterKey
    rw [_hv] at h3
    have h4 := length_toSpace_le ((place, quote) :: value)
    simp only [List.length_cons] at h3 h4
    omega

/-- The attributes of a tag with this content, after its name of so many characters. -/
def attributesOf (content : List Char) (nameLength : Nat) :
    List (Except AttributeError (List Char × List Char)) :=
  readAttributes (Text.byteSize content) [] ((placed 0 content).drop nameLength)

end LogConfig.Document
