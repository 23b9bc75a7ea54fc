import LogConfig.Text.Numeral

/-
  JSON values and their text, set out over several lines with an indentation of two blanks per
  level. The members of an object keep their order.
-/

namespace LogConfig

inductive Json where
  | null
  | bool (b : Bool)
  | integer (n : Int)
  /-- A number that is not written as an integer. -/
  | fraction
  | string (s : String)
  | array (items : List Json)
  | object (members : List (String × Json))
deriving Repr, Inhabited

namespace Json

/-- The written form of a character inside a string. -/
def escape (c : Char) : String :=
  if c = '"' then "\\\""
  else if c = '\\' then "\\\\"
  else if c = '\n' then "\\n"
  else if c = '\r' then "\\r"
  else if c = '\t' then "\\t"
  else if c = '\x08' then "\\b"
  else if c = '\x0c' then "\\f"
  else if c.toNat < 0x10 then "\\u000" ++ Text.hexadecimal c.toNat
  else if c.toNat < 0x20 then "\\u00" ++ Text.hexadecimal c.toNat
  else c.toString

def quote (s : String) : String := "\"" ++ String.join (s.toList.map escape) ++ "\""

/-- A new line at a level of indentation. -/
def newline (level : Nat) : String := "\n" ++ String.ofList (List.replicate (2 * level) ' ')

mutual

/-- The text of a value at a level of indentation. -/
def textAt (level : Nat) : Json → String
  | null => "null"
  | bool true => "true"
  | bool false => "false"
  | integer n => Text.intDecimal n
  | fraction => "0.0"
  | string s => quote s
  | array [] => "[]"
  | array (item :: items) =>
    "[" ++ newline (level + 1) ++ textAt (level + 1) item ++ itemsAt (level + 1) items ++
      newline level ++ "]"
  | object [] => "\x7b\x7d"
  | object ((key, value) :: members) =>
    "\x7b" ++ newline (level + 1) ++ quote key ++ ": " ++ textAt (level + 1) value ++
      membersAt (level + 1) members ++ newline level ++ "\x7d"

/-- The text of the items after the first. -/
def itemsAt (level : Nat) : List Json → String
  | [] => ""
  | item :: items => "," ++ newline level ++ textAt level item ++ itemsAt level items

/-- The text of the members after the first. -/
def membersAt (level : Nat) : List (String × Json) → String
  | [] => ""
  | (key, value) :: members =>
    "," ++ newline level ++ quote key ++ ": " ++ textAt level value ++ membersAt level members

end

/-- The text of a value. -/
def text (j : Json) : String := textAt 0 j

/-- The value of a member of an object; a member that is null counts as absent. -/
def member? (key : String) : List (String × Json) → Option Json
  | [] => none
  | (k, v) :: rest =>
    if k = key then
      match v with
      | null => none
      | v => some v
    else member? key rest

end Json
end LogConfig
