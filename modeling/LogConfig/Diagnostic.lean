import LogConfig.Text.Numeral

/-
  Diagnostics: what a session reports about a document. A diagnostic has a severity, a code, a
  message and, where they are known, the cause and the place in the document.
-/

namespace LogConfig

inductive Severity where
  | info | warning | error | fatal
deriving DecidableEq, Repr, Inhabited

namespace Severity

/-- Place of a severity in the order from harmless to fatal. -/
def rank : Severity → Nat
  | info => 0
  | warning => 1
  | error => 2
  | fatal => 3

/-- Whether a severity is at least another. -/
def atLeast (s bound : Severity) : Bool := bound.rank ≤ s.rank

/-- The greater of two severities. -/
def max (s t : Severity) : Severity := if s.rank < t.rank then t else s

/-- The label in front of a diagnostic's text. -/
def label : Severity → String
  | info => "INFO"
  | warning => "WARN"
  | error => "ERROR"
  | fatal => "FATAL"

/-- The name of a severity in a report. -/
def name : Severity → String
  | info => "info"
  | warning => "warning"
  | error => "error"
  | fatal => "fatal"

/-- The level at which a message of this severity is logged. -/
def logLevel : Severity → String
  | info => "INFO"
  | warning => "WARN"
  | error => "ERROR"
  | fatal => "ERROR"

def all : List Severity := [info, warning, error, fatal]

def ofName? (name : String) : Option Severity := all.find? fun s => s.name = name

end Severity

/-- A place in a document; lines and columns are counted from one. -/
structure Location where
  line : Nat
  column : Nat
deriving DecidableEq, Repr, Inhabited

namespace Location

def display (l : Location) : String :=
  "line " ++ Text.decimal l.line ++ ", column " ++ Text.decimal l.column

end Location

inductive DiagnosticCode where
  | status | unmatchedElement | missingAttribute | invalidAttributes | unresolvedReference
  | instantiation | property | substitution | stackDiscipline | activation | ruleRegistration
  | io | parser
  | custom (text : String)
deriving DecidableEq, Repr, Inhabited

namespace DiagnosticCode

/-- The codes other than the custom ones. -/
def fixed : List DiagnosticCode :=
  [status, unmatchedElement, missingAttribute, invalidAttributes, unresolvedReference,
   instantiation, property, substitution, stackDiscipline, activation, ruleRegistration, io, parser]

/-- The name of a code in a report; custom codes share one name. -/
def name : DiagnosticCode → String
  | status => "status"
  | unmatchedElement => "unmatched_element"
  | missingAttribute => "missing_attribute"
  | invalidAttributes => "invalid_attributes"
  | unresolvedReference => "unresolved_reference"
  | instantiation => "instantiation"
  | property => "property"
  | substitution => "substitution"
  | stackDiscipline => "stack_discipline"
  | activation => "activation"
  | ruleRegistration => "rule_registration"
  | io => "io"
  | parser => "parser"
  | custom _ => "custom"

/-- The text of a code: its name with blanks, or the custom text. -/
def display : DiagnosticCode → String
  | custom text => text
  | code => String.ofList (code.name.toList.map fun c => if c = '_' then ' ' else c)

def ofName? (name : String) : Option DiagnosticCode := fixed.find? fun code => code.name = name

end DiagnosticCode

structure Diagnostic where
  severity : Severity
  code : DiagnosticCode
  message : String
  cause : Option String := none
  location : Option Location := none
deriving DecidableEq, Repr, Inhabited

namespace Diagnostic

/-- A status message. -/
def info (message : String) : Diagnostic := ⟨.info, .status, message, none, none⟩

def warning (code : DiagnosticCode) (message : String) : Diagnostic :=
  ⟨.warning, code, message, none, none⟩

def error (code : DiagnosticCode) (message : String) : Diagnostic :=
  ⟨.error, code, message, none, none⟩

def withCause (d : Diagnostic) (cause : String) : Diagnostic := { d with cause := some cause }

/-- Adds a place to a diagnostic that has none. -/
def atLocation (d : Diagnostic) (place : Option Location) : Diagnostic :=
  match d.location with
  | some _ => d
  | none => { d with location := place }

/-- Whether a diagnostic is an error or worse. -/
def isError (d : Diagnostic) : Bool := d.severity.atLeast .error

def isWarning (d : Diagnostic) : Bool := d.severity = .warning

/-- The text of a diagnostic: severity, message, then place and cause where known. -/
def display (d : Diagnostic) : String :=
  "[" ++ d.severity.label ++ "] " ++ d.message ++
    (match d.location with
     | some place => " (" ++ place.display ++ ")"
     | none => "") ++
    (match d.cause with
     | some cause => ": caused by " ++ cause
     | none => "")

/-- The worst severity among diagnostics. -/
def highest? : List Diagnostic → Option Severity
  | [] => none
  | d :: ds =>
    match highest? ds with
    | some s => some (d.severity.max s)
    | none => some d.severity

end Diagnostic
end LogConfig
