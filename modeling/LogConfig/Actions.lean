import LogConfig.Actions.Appender
import LogConfig.Actions.Context
import LogConfig.Actions.Logger
import LogConfig.Actions.Nested
import LogConfig.RuleStore

/-
  The built-in actions: the names they are registered under, and the rules that every session
  starts with.
-/

namespace LogConfig.Actions

/-- The package in which documents look for actions of the core. -/
def corePackage : String := "ch.qos.logback.core.joran.action."

/-- The package in which documents look for actions on loggers. -/
def classicPackage : String := "ch.qos.logback.classic.joran.action."

/-- The path of every built-in action. -/
def libraryPath : String := "octofhir_joran::action::"

/-- The built-in actions, each with its package where documents know one. -/
def builtins : List (Action × Option String) :=
  [(configuration, some classicPackage), (contextName, some classicPackage),
   (property, some corePackage), (conversionRule, some corePackage),
   (logger, some classicPackage), (rootLogger, some classicPackage),
   (level, some classicPackage), (appender, some corePackage), (appenderRef, some corePackage),
   (layout, none), (param, some corePackage), (newRule, some corePackage),
   (nestedComponent, none), (nestedProperty, none)]

/-- The names of an action: its own, its path, and its name in the package. -/
def namesOf (a : Action) (package : Option String) : List String :=
  [a.name, libraryPath ++ a.name] ++ (package.map fun p => p ++ a.name).toList

/-- The registry of the built-in actions. -/
def registry : ActionRegistry :=
  builtins.foldl (fun reg (a, package) =>
    (namesOf a package).foldl (fun reg name => reg.register name a) reg) .empty

/-- The rules that every session starts with. -/
def defaultRules : List (String × Action) :=
  [("configuration", configuration),
   ("configuration/contextName", contextName),
   ("configuration/property", property),
   ("configuration/variable", property),
   ("configuration/conversionRule", conversionRule),
   ("configuration/logger", logger),
   ("configuration/logger/level", level),
   ("configuration/root", rootLogger),
   ("configuration/root/level", level),
   ("*/appender-ref", appenderRef),
   ("*/appenderRef", appenderRef),
   ("configuration/appender", appender),
   ("configuration/appender/layout", layout),
   ("*/param", param),
   ("*/newRule", newRule),
   ("*/new-rule", newRule)]

/-- A store with the default rules over a registry. -/
def defaultStore (registry : ActionRegistry) : RuleStore :=
  defaultRules.foldl (fun store (pattern, a) => store.addNew (ElementPath.parse pattern) a)
    { registry }

end LogConfig.Actions
