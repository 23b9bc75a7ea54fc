import LogConfig.Json.Diagnostic
import LogConfig.Session

/-
  Reports: what a session leaves behind. A report names the context, lists the loggers as they
  stand, and holds every diagnostic of the session. It can be shown as a text or as JSON.
-/

namespace LogConfig

namespace LoggerSnapshot

def toJson (l : LoggerSnapshot) : Json :=
  .object
    [("name", .string l.name),
     ("level", (l.level.map fun level => Json.string level.token).getD .null),
     ("effective_level", .string l.effectiveLevel.token),
     ("additive", .bool l.additive),
     ("appenders", .array (l.appenders.map .string))]

/-- The line for a logger in a text. -/
def line (l : LoggerSnapshot) : String :=
  "  " ++ l.name ++ " level=" ++
    (match l.level with
     | some level => level.token
     | none => "inherited (" ++ l.effectiveLevel.token ++ ")") ++
    (if l.additive then "" else " additive=false") ++
    (if l.appenders.isEmpty then "" else " appenders=[" ++ Text.joined ", " l.appenders ++ "]")

end LoggerSnapshot

structure Report where
  contextName : String
  loggers : List LoggerSnapshot
  diagnostics : List Diagnostic
  debug : Bool
deriving Inhabited

namespace Report

/-- The report of a session over the context under a handle. -/
def ofSession (s : Session) (context : Ref) : Report where
  contextName := ((s.graph.context? context).map LoggerContext.name).getD ""
  loggers := ((s.graph.context? context).map s.graph.snapshot).getD []
  diagnostics := s.diagnostics
  debug := s.debug

def hasErrors (r : Report) : Bool := r.diagnostics.any Diagnostic.isError

def highest? (r : Report) : Option Severity := Diagnostic.highest? r.diagnostics

/-- The diagnostics of a severity or a worse one. -/
def atLeast (r : Report) (s : Severity) : List Diagnostic :=
  r.diagnostics.filter fun d => d.severity.atLeast s

def toJson (r : Report) : Json :=
  .object
    [("context_name", .string r.contextName),
     ("loggers", .array (r.loggers.map LoggerSnapshot.toJson)),
     ("diagnostics", .array (r.diagnostics.map Diagnostic.toJson)),
     ("debug", .bool r.debug)]

/-- The diagnostics shown in a text: all of them in a debug session, else those that matter. -/
def shown (r : Report) : List Diagnostic :=
  if r.debug then r.diagnostics else r.atLeast .warning

/-- The lines of the text. -/
def lines (r : Report) : List String :=
  ["Context: " ++ r.contextName, "Loggers:"] ++ r.loggers.map LoggerSnapshot.line ++
    (if r.shown.isEmpty then ["No problems found"]
     else "Diagnostics:" :: r.shown.map fun d => "  " ++ d.display)

/-- The text of a report, every line ended. -/
def text (r : Report) : String := String.join (r.lines.map fun line => line ++ "\n")

end Report
end LogConfig
