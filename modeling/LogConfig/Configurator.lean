import LogConfig.Actions
import LogConfig.Interpreter
import LogConfig.Report

/-
  Configurators run documents over a logger context. Every document is a session of its own, with
  the default rules and the context at the bottom of its stack; what it does to the context stays
  for the next.
-/

namespace LogConfig

/-- What every session of a configurator starts with. -/
structure SessionOptions where
  /-- Values that stand in for variables of the process. -/
  overrides : List (String × String) := []
  properties : List (String × String) := []
  usesProcessVariables : Bool := true
  debug : Bool := false

structure Configurator where
  /-- The logger context that documents configure. -/
  context : Ref
  classes : ClassRegistry := ClassRegistry.builtins
  actions : ActionRegistry := Actions.registry
  options : SessionOptions := {}
  environment : Environment := {}

namespace Configurator

/-- The session in which a document starts. -/
def session (c : Configurator) (g : Graph) : Session :=
  let base : Session :=
    { graph := g
      overrides := Entries.ofList c.options.overrides
      usesProcessVariables := c.options.usesProcessVariables
      environment := c.environment
      classes := c.classes
      debug := c.options.debug }
  (base.defineProperties (Entries.ofList c.options.properties)).push c.context

/-- The interpreter that a document is given to. -/
def interpreter (c : Configurator) (g : Graph) : Interpreter where
  rules := Actions.defaultStore c.actions
  implicit := [Actions.implicitComponent, Actions.implicitProperty]
  session := c.session g

/-- Warns of objects left on the stack beside the context. -/
def finish (s : Session) : Session :=
  if s.depth = 1 then s
  else s.warn .stackDiscipline
    ("Object stack holds " ++ Text.decimal s.depth ++
      " object(s) at the end of the session, expected only the logger context")

/-- The session at the end of a document. -/
def run (c : Configurator) (g : Graph) (source : String) : Session :=
  finish ((c.interpreter g).run (Document.events source)).session

/-- Runs a document: the graph it leaves, and its report. -/
def configure (c : Configurator) (g : Graph) (source : String) : Graph × Report :=
  let s := c.run g source
  (s.graph, Report.ofSession s c.context)

/-- The document in a file. -/
def readDocument (c : Configurator) (path : String) : Except ConfigError String :=
  (c.environment.readText path).mapError fun e => .io path e.message

end Configurator
end LogConfig
