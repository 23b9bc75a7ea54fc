import LogConfig.Component.Kind
import LogConfig.Entries
import LogConfig.Error

/-
  Loggers and the logger context that owns them. A logger has a name, a level or none, and
  appenders; the context has a root logger, further loggers by name, properties and conversion
  rules.
-/

namespace LogConfig

structure Logger where
  name : String
  level : Option Level := none
  additive : Bool := true
  appenders : List Ref := []
deriving DecidableEq, Repr, Inhabited

namespace Logger

def className : String := "Logger"

/-- The name of the root logger, in any case. -/
def rootName : String := "ROOT"

def isRootName (name : String) : Bool := Text.eqIgnoringCase name rootName

def isRoot (l : Logger) : Bool := isRootName l.name

def descriptors : List Descriptor :=
  [⟨"level", .basic .level⟩, ⟨"additivity", .basic .boolean⟩, ⟨"appender", .collection .appender⟩]

/-- Attaches an appender, unless that very appender is attached already. -/
def attach (l : Logger) (appender : Ref) : Logger :=
  if appender ∈ l.appenders then l else { l with appenders := l.appenders ++ [appender] }

def setProperty (l : Logger) (name : String) (value : Value) : Except PropertyError Logger :=
  let unexpected := .error (.rejected name (unexpectedValue value))
  if name = "level" then
    match value with
    | .level level => .ok { l with level := some level }
    | _ => unexpected
  else if name = "additivity" then
    match value with
    | .boolean b => .ok { l with additive := b }
    | _ => unexpected
  else .error (.notFound name className)

def property? (l : Logger) (name : String) : Option Value :=
  if name = "name" then some (.string l.name)
  else if name = "level" then l.level.map .level
  else if name = "additivity" then some (.boolean l.additive)
  else none

def addComponent (l : Logger) (name : String) (child : Ref) : Except PropertyError Logger :=
  if name = "appender" then .ok (l.attach child) else .error (.notFound name className)

end Logger

/-- What owns the loggers. The loggers are components of their own, here by their handles. -/
structure LoggerContext where
  name : String
  nameLocked : Bool := false
  root : Ref
  loggers : List (String × Ref) := []
  properties : List (String × String) := []
  conversionRules : List (String × String) := []
deriving DecidableEq, Repr, Inhabited

namespace LoggerContext

def className : String := "LoggerContext"

/-- The level of the root logger until another is set, and of a root logger without one. -/
def defaultLevel : Level := .debug

/-- The root logger of a new context. -/
def newRoot : Logger := { name := Logger.rootName, level := some defaultLevel }

/-- Names the context. A name can be set once; setting the same name again changes nothing. -/
def rename (c : LoggerContext) (name : String) : Except String LoggerContext :=
  if c.nameLocked && c.name != name then
    .error ("Context has already been named [" ++ c.name ++ "], cannot rename to [" ++ name ++ "]")
  else .ok { c with name, nameLocked := true }

/-- The logger of a name, if there is one; every spelling of the root's name means the root. -/
def find? (c : LoggerContext) (name : String) : Option Ref :=
  if Logger.isRootName name then some c.root else Entries.find? name c.loggers

def putProperty (c : LoggerContext) (key value : String) : LoggerContext :=
  { c with properties := Entries.insert key value c.properties }

/-- Binds a conversion word to a class. -/
def putConversionRule (c : LoggerContext) (word converter : String) : LoggerContext :=
  { c with conversionRules := Entries.insert word converter c.conversionRules }

def property? (c : LoggerContext) (name : String) : Option Value :=
  if name = "name" then some (.string c.name) else none

/-- The text that describes a context. -/
def describe (c : LoggerContext) : String :=
  "LoggerContext \x7b name: " ++ Text.quoted c.name ++
    ", name_locked: " ++ (if c.nameLocked then "true" else "false") ++
    ", loggers: " ++ Text.quotedList (Entries.keys c.loggers) ++
    ", properties: " ++ Text.quotedEntries c.properties ++
    ", conversion_rules: " ++ Text.quotedEntries c.conversionRules ++ " \x7d"

end LoggerContext
end LogConfig
