import LogConfig.Action

/-
  The actions for loggers: declaring a logger, taking up the root logger, and setting a level.
-/

namespace LogConfig.Actions

/-- The level that a token asks for, or none for one that is to be inherited. -/
def levelOfToken (token : String) : Except ConfigError (Option Level) :=
  if Level.isInheritedToken token then .ok none
  else
    match Level.parse? token with
    | some level => .ok (some level)
    | none => .error (.property (.conversion "level" token "Level"))

/-- The graph after the level of a logger is set as a token asks; the root logger keeps one. -/
def setLevel (g : Graph) (r : Ref) (token : String) : Except ConfigError Graph :=
  match levelOfToken token with
  | .error e => .error e
  | .ok level =>
    match g.logger? r with
    | none => .error (.unexpectedObject "the object at the top of the stack is not a logger")
    | some l =>
      if level.isNone && l.isRoot then
        .error (.other ("The level of the root logger cannot be set to " ++
          String.ofList ((Text.trim token).toList.map Char.toUpper)))
      else .ok (g.modifyLogger r fun l => { l with level })

/-- What is said of a logger whose level was set. -/
def levelMessage (g : Graph) (r : Ref) : String :=
  let property name := ((g.get? r).bind fun c => c.property? name).map Value.display
  match property "level" with
  | some level => "Setting level of logger [" ++ (property "name").getD "" ++ "] to " ++ level
  | none => "Logger [" ++ (property "name").getD "" ++ "] inherits its level"

/-- Sets the level of a logger as a token asks, and says so. -/
def applyLevel (r : Ref) (token : String) : Phase Unit := do
  let s ← get
  match setLevel s.graph r token with
  | .ok graph => set ({ s with graph }.info (levelMessage graph r))
  | .error e => Phase.fail e

/-- Sets the level of a logger as an attribute asks, if it is there; an error is recorded. -/
def levelAttribute (attributes : Attributes) (r : Ref) : Phase Unit := do
  match ← Phase.attribute? attributes "level" with
  | some token => do
    let s ← get
    match setLevel s.graph r token with
    | .ok graph => set ({ s with graph }.info (levelMessage graph r))
    | .error e => Phase.recordError e
  | none => pure ()

/-- The logger of a name in the context. -/
def namedLogger (name : String) : Phase Ref := do
  let (context, c) ← Phase.context
  let s ← get
  let (graph, r) := s.graph.getLogger context c name
  set { s with graph }
  pure r

/-- The logger of a name, made from a class when there is none yet. -/
def loggerOfClass (name className : String) : Phase Ref := do
  match ← Phase.ofExcept ((← get).classes.instanceOfKind? className .logger) with
  | .logger prototype => do
    let (context, c) ← Phase.context
    let s ← get
    match s.graph.adoptLogger context c name prototype with
    | (graph, .ok r) => do
      set ({ s with graph }.info
        ("Created logger [" ++ name ++ "] from class [" ++ className ++ "]"))
      pure r
    | (graph, .error r) => do
      set ({ s with graph }.warn .status
        ("Logger [" ++ name ++ "] already exists, class [" ++ className ++ "] is ignored"))
      pure r
  | _ => do
    Phase.warn .instantiation
      ("Class [" ++ className ++ "] is not a logger the context can hold, [" ++ name ++
        "] uses a plain logger")
    namedLogger name

/-- Sets the additivity of a logger as an attribute asks, if it is there; an error is recorded. -/
def additivityAttribute (attributes : Attributes) (name : String) (r : Ref) : Phase Unit := do
  match ← Phase.attribute? attributes "additivity" with
  | some text =>
    match Value.coerce .boolean text with
    | .ok (.boolean additive) => do
      modify fun s => { s with graph := s.graph.modifyLogger r fun l => { l with additive } }
      Phase.info ("Setting additivity of logger [" ++ name ++ "] to " ++
        (Value.boolean additive).display)
    | _ => Phase.recordError (.property (.conversion "additivity" text "boolean"))
  | none => pure ()

def beginLogger (element : String) (attributes : Attributes) : Phase (Option ActionData) := do
  let name ← Phase.requiredAttribute element attributes "name"
  let r ← match ← Phase.attribute? attributes "class" with
    | some className => loggerOfClass name className
    | none => namedLogger name
  levelAttribute attributes r
  additivityAttribute attributes name r
  Phase.push r
  pure (some (.component r))

/-- Takes the object that an element began with from the stack. -/
def finishPushed (what : String) (_element : String) : Option ActionData → Phase Unit
  | some (.component r) => discard (Phase.popExpected r what)
  | _ => pure ()

/-- Declares a logger and makes it the object under configuration. -/
def logger : Action where
  name := "LoggerAction"
  begin := beginLogger
  finish := finishPushed "logger"

def beginRoot (_element : String) (attributes : Attributes) : Phase (Option ActionData) := do
  let (_, c) ← Phase.context
  levelAttribute attributes c.root
  Phase.push c.root
  pure (some (.component c.root))

/-- Makes the root logger the object under configuration. -/
def rootLogger : Action where
  name := "RootLoggerAction"
  begin := beginRoot
  finish := finishPushed "root logger"

def beginLevel (element : String) (attributes : Attributes) : Phase (Option ActionData) := do
  let token ← Phase.requiredAttribute element attributes "value"
  let r ← Phase.top
  applyLevel r token
  pure none

/-- Sets the level of the logger on top of the stack. -/
def level : Action where
  name := "LevelAction"
  begin := beginLevel

end LogConfig.Actions
