import LogConfig.Diagnostic
import LogConfig.Json

/-
  Diagnostics as JSON. A diagnostic is an object; a severity or code without data is its name, and
  a custom code an object with one member. Reading also takes the values of an object's members as
  an array in their order, and a name as an object whose one member is null.
-/

namespace LogConfig

namespace Json

/-- The name that a value without data stands for. -/
def name? : Json → Option String
  | string s => some s
  | object [(key, null)] => some key
  | _ => none

def string? : Json → Option String
  | string s => some s
  | _ => none

/-- A natural number of 64 bits. -/
def size? : Json → Option Nat
  | integer n => if 0 ≤ n && n.toNat < UInt64.size then some n.toNat else none
  | _ => none

/-- A value that may be null or absent. -/
def optional? {α : Type} (read : Json → Option α) : Option Json → Option (Option α)
  | none => some none
  | some null => some none
  | some j => (read j).map some

end Json

namespace Severity

def toJson (s : Severity) : Json := .string s.name

def ofJson? (j : Json) : Option Severity := j.name?.bind ofName?

end Severity

namespace DiagnosticCode

def toJson : DiagnosticCode → Json
  | custom text => .object [("custom", .string text)]
  | code => .string code.name

def ofJson? : Json → Option DiagnosticCode
  | .object [("custom", .string text)] => some (custom text)
  | j => j.name?.bind ofName?

end DiagnosticCode

namespace Location

def toJson (l : Location) : Json := .object [("line", .integer l.line), ("column", .integer l.column)]

def ofParts? (line column : Json) : Option Location := do
  some ⟨← line.size?, ← column.size?⟩

def ofJson? : Json → Option Location
  | .object members => do ofParts? (← Json.member? "line" members) (← Json.member? "column" members)
  | .array [line, column] => ofParts? line column
  | _ => none

end Location

namespace Diagnostic

def toJson (d : Diagnostic) : Json :=
  .object ([("severity", d.severity.toJson), ("code", d.code.toJson), ("message", .string d.message)] ++
    (d.cause.map fun cause => ("cause", Json.string cause)).toList ++
    (d.location.map fun place => ("location", place.toJson)).toList)

def ofParts? (severity code message : Json) (cause location : Option Json) : Option Diagnostic := do
  some
    { severity := ← Severity.ofJson? severity
      code := ← DiagnosticCode.ofJson? code
      message := ← message.string?
      cause := ← Json.optional? Json.string? cause
      location := ← Json.optional? Location.ofJson? location }

def ofJson? : Json → Option Diagnostic
  | .object members => do
    ofParts? (← Json.member? "severity" members) (← Json.member? "code" members)
      (← Json.member? "message" members) (Json.member? "cause" members)
      (Json.member? "location" members)
  | .array [severity, code, message, cause, location] =>
    ofParts? severity code message (some cause) (some location)
  | _ => none

end Diagnostic
end LogConfig
