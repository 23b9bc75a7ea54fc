import LogConfig.Graph

/-
  The loggers of a context. A logger is created when its name is first asked for and stays the
  logger of that name. A logger without a level of its own has the level of the nearest ancestor
  with one; the ancestors of a name are its prefixes that end right before a dot, and then the
  root.
-/

namespace LogConfig

/-- What a report says of a logger. -/
structure LoggerSnapshot where
  name : String
  level : Option Level
  effectiveLevel : Level
  additive : Bool
  appenders : List String
deriving DecidableEq, Repr, Inhabited

/-- The prefixes of a name that end right before a dot, shortest first. -/
def dottedPrefixes : List Char → List (List Char)
  | [] => []
  | c :: cs =>
    let longer := (dottedPrefixes cs).map (c :: ·)
    if c = '.' then [] :: longer else longer

/-- A name and its dotted ancestors, nearest first. -/
def ancestry (name : String) : List String :=
  name :: ((dottedPrefixes name.toList).map String.ofList).reverse

namespace Graph

/-- Adds a logger context with a new root logger. -/
def addContext (g : Graph) (name : String) : Graph × Ref :=
  let withRoot := g.add (.logger LoggerContext.newRoot)
  (withRoot.add (.context { name, root := g.next }), withRoot.next)

/-- The logger of a name, if the context under the handle has it. -/
def findLogger? (g : Graph) (context : Ref) (name : String) : Option Ref :=
  (g.context? context).bind fun c => c.find? name

/-- Adds a logger to a context under a name. -/
def addLogger (g : Graph) (context : Ref) (c : LoggerContext) (name : String) (l : Logger) :
    Graph × Ref :=
  ((g.add (.logger l)).put context
    (.context { c with loggers := Entries.insert name g.next c.loggers }), g.next)

/-- The logger of a name, created when there is none. -/
def getLogger (g : Graph) (context : Ref) (c : LoggerContext) (name : String) : Graph × Ref :=
  match c.find? name with
  | some r => (g, r)
  | none => g.addLogger context c name { name }

/-- Makes a logger, renamed, the logger of a name; where there is one it stays, as an error. -/
def adoptLogger (g : Graph) (context : Ref) (c : LoggerContext) (name : String) (l : Logger) :
    Graph × Except Ref Ref :=
  match c.find? name with
  | some r => (g, .error r)
  | none =>
    let (added, r) := g.addLogger context c name { l with name }
    (added, .ok r)

/-- The level of its own that a logger has, if there is such a logger with a level. -/
def ownLevel? (g : Graph) (c : LoggerContext) (name : String) : Option Level :=
  (Entries.find? name c.loggers).bind fun r => (g.logger? r).bind Logger.level

/-- The level in force for a name. -/
def effectiveLevel (g : Graph) (c : LoggerContext) (name : String) : Level :=
  match (ancestry name).findSome? (g.ownLevel? c) with
  | some level => level
  | none => ((g.logger? c.root).bind Logger.level).getD LoggerContext.defaultLevel

/-- The names of the appenders of a logger. -/
def appenderNames (g : Graph) (l : Logger) : List String :=
  l.appenders.map fun r => (g.title? r).getD "<unnamed>"

def snapshotOf (g : Graph) (c : LoggerContext) (l : Logger) : LoggerSnapshot where
  name := l.name
  level := l.level
  effectiveLevel :=
    if l.isRoot then l.level.getD LoggerContext.defaultLevel else g.effectiveLevel c l.name
  additive := l.additive
  appenders := g.appenderNames l

/-- The root logger and then every other, in order of creation. -/
def snapshot (g : Graph) (c : LoggerContext) : List LoggerSnapshot :=
  (c.root :: c.loggers.map Prod.snd).filterMap fun r => (g.logger? r).map (g.snapshotOf c)

end Graph
end LogConfig
