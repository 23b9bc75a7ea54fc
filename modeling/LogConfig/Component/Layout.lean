import LogConfig.Component.Kind
import LogConfig.Entries
import LogConfig.Error

/-
  Layouts that write an event by a pattern of conversions such as `%d %-5level - %msg%n`, and the
  encoder that wraps one. Activation finds the conversion words of the pattern.
-/

namespace LogConfig

/-- Whether a character can stand between the percent sign of a conversion and its word. -/
def isModifier (c : Char) : Bool := c = '-' || c = '.' || c.isDigit

/-- The conversion words of a pattern, in order. After a percent sign come any modifiers and then
the letters of the word; a doubled percent sign is a literal one. -/
def conversionWords : List Char → List (List Char)
  | [] => []
  | '%' :: '%' :: rest => conversionWords rest
  | '%' :: rest =>
    let start := rest.dropWhile isModifier
    let word := start.takeWhile Char.isAlpha
    let others := conversionWords (start.dropWhile Char.isAlpha)
    if word.isEmpty then others else word :: others
  | _ :: rest => conversionWords rest
termination_by cs => cs.length
decreasing_by
  all_goals simp only [List.length_cons]
  · omega
  · have h1 := (List.dropWhile_sublist (l := rest) isModifier).length_le
    have h2 := (List.dropWhile_sublist (l := rest.dropWhile isModifier) Char.isAlpha).length_le
    omega
  · omega

/-- Writes an event by a pattern. -/
structure PatternLayout where
  pattern : Option String := none
  patternAsHeader : Bool := false
  words : List String := []
  active : Bool := false
deriving DecidableEq, Repr, Inhabited

namespace PatternLayout

def className : String := "PatternLayout"

def descriptors : List Descriptor :=
  [⟨"pattern", .basic .string⟩, ⟨"outputPatternAsHeader", .basic .boolean⟩]

/-- Sets a property on behalf of the named class. -/
def setPropertyFor (owner : String) (l : PatternLayout) (name : String) (value : Value) :
    Except PropertyError PatternLayout :=
  let unexpected := .error (.rejected name (unexpectedValue value))
  if name = "pattern" then
    match value with
    | .string text => .ok { l with pattern := some text }
    | _ => unexpected
  else if name = "outputPatternAsHeader" then
    match value with
    | .boolean b => .ok { l with patternAsHeader := b }
    | _ => unexpected
  else .error (.notFound name owner)

def setProperty : PatternLayout → String → Value → Except PropertyError PatternLayout :=
  setPropertyFor className

def property? (l : PatternLayout) (name : String) : Option Value :=
  if name = "pattern" then l.pattern.map .string
  else if name = "outputPatternAsHeader" then some (.boolean l.patternAsHeader)
  else none

def activate (l : PatternLayout) : Except String PatternLayout :=
  let refusal := .error "Empty or null pattern"
  match l.pattern with
  | some text =>
    if Text.trim text = "" then refusal
    else .ok { l with words := (conversionWords text.toList).map String.ofList, active := true }
  | none => refusal

/-- Each conversion word with the class that converts it, where a rule names one. -/
def converters (l : PatternLayout) (rules : List (String × String)) :
    List (String × Option String) :=
  l.words.map fun word => (word, Entries.find? word rules)

end PatternLayout

/-- Encodes events in a character set through a layout of its own. -/
structure PatternLayoutEncoder where
  layout : PatternLayout := {}
  charset : String := "UTF-8"
deriving DecidableEq, Repr, Inhabited

namespace PatternLayoutEncoder

def className : String := "PatternLayoutEncoder"

def descriptors : List Descriptor :=
  [⟨"pattern", .basic .string⟩, ⟨"charset", .basic .string⟩,
   ⟨"outputPatternAsHeader", .basic .boolean⟩]

def setProperty (e : PatternLayoutEncoder) (name : String) (value : Value) :
    Except PropertyError PatternLayoutEncoder :=
  if name = "charset" then
    match value with
    | .string text => .ok { e with charset := Text.trim text }
    | _ => .error (.rejected name (unexpectedValue value))
  else
    match e.layout.setPropertyFor className name value with
    | .ok layout => .ok { e with layout }
    | .error problem => .error problem

def property? (e : PatternLayoutEncoder) (name : String) : Option Value :=
  if name = "charset" then some (.string e.charset) else e.layout.property? name

def activate (e : PatternLayoutEncoder) : Except String PatternLayoutEncoder :=
  match e.layout.activate with
  | .ok layout => .ok { e with layout }
  | .error reason => .error reason

end PatternLayoutEncoder
end LogConfig
