import LogConfig.Level
import LogConfig.Text.Numeral
import LogConfig.Text.Quoted

/-
  Typed values of component properties and their coercion from text. A value has a display
  text; coercing a text either yields a value of the wanted type or names what was asked for.
-/

namespace LogConfig

/-- The types a property can have; an enumeration lists its tokens. -/
inductive ValueType where
  | string | integer | long | boolean | level
  | enumeration (tokens : List String)
deriving DecidableEq, Repr, Inhabited

/-- A typed value; integers have 32 and longs 64 bits. -/
inductive Value where
  | string (text : String)
  | integer (n : Int32)
  | long (n : Int64)
  | boolean (b : Bool)
  | level (l : Level)
  | enumeration (token : String)
deriving DecidableEq, Repr, Inhabited

namespace ValueType

/-- The name of a type in messages. -/
def name : ValueType → String
  | string => "String"
  | integer => "int"
  | long => "long"
  | boolean => "boolean"
  | level => "Level"
  | enumeration _ => "enum"

end ValueType

/-- A text that is no value of the type asked for. -/
structure CoercionError where
  text : String
  target : String
deriving DecidableEq, Repr

namespace CoercionError

def message (e : CoercionError) : String :=
  "Invalid format '" ++ e.text ++ "' for type " ++ e.target

end CoercionError

namespace Value

/-- The display text of a value. -/
def display : Value → String
  | string text => text
  | integer n => Text.intDecimal n.toInt
  | long n => Text.intDecimal n.toInt
  | boolean true => "true"
  | boolean false => "false"
  | level l => l.token
  | enumeration token => token

/-- The text of a string or an enumeration token. -/
def text? : Value → Option String
  | string text => some text
  | enumeration token => some token
  | _ => none

def bool? : Value → Option Bool
  | boolean b => some b
  | _ => none

def level? : Value → Option Level
  | level l => some l
  | _ => none

/-- Reads a decimal integer of 32 bits, with blanks around it. -/
def integer? (text : String) : Option Value :=
  match Text.readInt (Text.trim text).toList with
  | some n =>
    if Int32.minValue.toInt ≤ n ∧ n ≤ Int32.maxValue.toInt then some (integer (Int32.ofInt n))
    else none
  | none => none

/-- Reads a decimal integer of 64 bits, with blanks around it. -/
def long? (text : String) : Option Value :=
  match Text.readInt (Text.trim text).toList with
  | some n =>
    if Int64.minValue.toInt ≤ n ∧ n ≤ Int64.maxValue.toInt then some (long (Int64.ofInt n))
    else none
  | none => none

/-- Reads `true` or `false` in any case, with blanks around it. -/
def boolean? (text : String) : Option Value :=
  if Text.eqIgnoringCase (Text.trim text) "true" then some (boolean true)
  else if Text.eqIgnoringCase (Text.trim text) "false" then some (boolean false)
  else none

/-- Reads one of the tokens in any case, with blanks around it, and yields it as listed. -/
def enumeration? (tokens : List String) (text : String) : Option Value :=
  (tokens.find? fun token => Text.eqIgnoringCase token (Text.trim text)).map enumeration

/-- The value of a type that a text denotes, if any. -/
def ofText? : ValueType → String → Option Value
  | .string, text => some (string text)
  | .integer, text => integer? text
  | .long, text => long? text
  | .boolean, text => boolean? text
  | .level, text => (Level.parse? text).map level
  | .enumeration tokens, text => enumeration? tokens text

/-- What a failed coercion names as its target: the type, or the tokens of an enumeration. -/
def targetName : ValueType → String
  | .enumeration tokens => "one of [" ++ Text.joined ", " tokens ++ "]"
  | type => type.name

/-- Coerces a text to a type. -/
def coerce (type : ValueType) (text : String) : Except CoercionError Value :=
  match ofText? type text with
  | some value => .ok value
  | none => .error ⟨text, targetName type⟩

/-- Whether a value has a type; a token must be one of those listed. -/
def HasType : Value → ValueType → Prop
  | string _, .string => True
  | integer _, .integer => True
  | long _, .long => True
  | boolean _, .boolean => True
  | level _, .level => True
  | enumeration token, .enumeration tokens => token ∈ tokens
  | _, _ => False

end Value
end LogConfig
