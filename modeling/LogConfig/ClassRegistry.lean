import LogConfig.Graph
import LogConfig.Text.Quoted

/-
  The component classes that a document can name. Each class has a prototype; instantiating the
  class adds a copy of it to the graph. An alias takes over the prototype that its class has at
  the time.
-/

namespace LogConfig

structure ClassRegistry where
  prototypes : List (String × Component) := []

namespace ClassRegistry

def empty : ClassRegistry := {}

/-- Registers a class, in place of one of the same name. -/
def register (reg : ClassRegistry) (name : String) (prototype : Component) : ClassRegistry :=
  ⟨Entries.insert name prototype reg.prototypes⟩

/-- Gives a registered class a further name; without such a class nothing happens. -/
def addAlias (reg : ClassRegistry) (name className : String) : Option ClassRegistry :=
  (Entries.find? className reg.prototypes).map (reg.register name)

/-- The prototype of a class named with or without blanks around it. -/
def prototype? (reg : ClassRegistry) (name : String) : Option Component :=
  Entries.find? (Text.trim name) reg.prototypes

def contains (reg : ClassRegistry) (name : String) : Bool := (reg.prototype? name).isSome

/-- The registered names in ascending order. -/
def names (reg : ClassRegistry) : List String :=
  (Entries.keys reg.prototypes).mergeSort fun a b => decide (a ≤ b)

/-- The component that a class is instantiated by. -/
def instance? (reg : ClassRegistry) (name : String) : Except ConfigError Component :=
  if Text.trim name = "" then .error (.instantiation "" "empty class name")
  else
    match reg.prototype? name with
    | some c => .ok c
    | none => .error (.instantiation (Text.trim name) "class not found")

/-- The component that a class is instantiated by where a kind is wanted. -/
def instanceOfKind? (reg : ClassRegistry) (name : String) (kind : ComponentKind) :
    Except ConfigError Component :=
  match reg.instance? name with
  | .ok c => if c.isKind kind then .ok c else .error (.wrongSupertype (Text.trim name) kind.name)
  | .error problem => .error problem

/-- The classes that every configuration knows, under their short names. -/
def builtinClasses : List (String × Component) :=
  [(ConsoleAppender.className, .console {}),
   (FileAppender.className, .file {}),
   (PatternLayout.className, .layout {}),
   (PatternLayoutEncoder.className, .encoder {}),
   (ThresholdFilter.className, .threshold {}),
   (LevelFilter.className, .levelFilter {}),
   (Logger.className, .logger { name := "" })]

/-- The qualified names of the built-in classes. -/
def qualifiedNames : List (String × String) :=
  [("ch.qos.logback.core.ConsoleAppender", ConsoleAppender.className),
   ("ch.qos.logback.core.FileAppender", FileAppender.className),
   ("ch.qos.logback.classic.PatternLayout", PatternLayout.className),
   ("ch.qos.logback.classic.encoder.PatternLayoutEncoder", PatternLayoutEncoder.className),
   ("ch.qos.logback.classic.filter.ThresholdFilter", ThresholdFilter.className),
   ("ch.qos.logback.classic.filter.LevelFilter", LevelFilter.className),
   ("ch.qos.logback.classic.Logger", Logger.className)]

def builtins : ClassRegistry :=
  let short := builtinClasses.foldl (fun reg (name, c) => reg.register name c) empty
  qualifiedNames.foldl (fun reg (name, className) => (reg.addAlias name className).getD reg) short

/-- The text that describes a registry. -/
def describe (reg : ClassRegistry) : String :=
  "ClassRegistry \x7b classes: " ++ Text.quotedList reg.names ++ " \x7d"

end ClassRegistry
end LogConfig
