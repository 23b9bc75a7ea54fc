import LogConfig.Action

/-
  The actions for appenders: declaring an appender, referring to one by name, and giving one its
  layout. An appender is activated when its element closes, and so is a layout.
-/

namespace LogConfig.Actions

/-- Names a new appender and keeps it under that name. -/
def nameAppender (appender : Ref) (name : String) : Phase Unit := do
  Phase.changeGraph fun g => g.setFromText appender "name" name
  Phase.info ("Naming appender as [" ++ name ++ "]")
  let known := (← get).appender? name
  modify fun s => s.keepAppender name appender
  if known.isSome then
    Phase.warn .status
      ("Appender named [" ++ name ++ "] was already defined, the later definition wins")

def beginAppender (element : String) (attributes : Attributes) : Phase (Option ActionData) := do
  let className ← Phase.requiredAttribute element attributes "class"
  let appender ← Phase.instantiate className .appender
  Phase.info ("About to instantiate appender of type [" ++ className ++ "]")
  match ← Phase.attribute? attributes "name" with
  | some name => nameAppender appender name
  | none =>
    Phase.warn .missingAttribute
      ("No name given for appender of type [" ++ className ++ "], it cannot be referenced")
  Phase.push appender
  pure (some (.component appender))

def finishAppender (_element : String) : Option ActionData → Phase Unit
  | some (.component appender) => do
    Phase.activate appender
    discard (Phase.popExpected appender "appender")
  | _ => pure ()

/-- Declares an appender, configured by the elements inside. -/
def appender : Action where
  name := "AppenderAction"
  begin := beginAppender
  finish := finishAppender

def beginAppenderRef (element : String) (attributes : Attributes) :
    Phase (Option ActionData) := do
  let reference ← Phase.requiredAttribute element attributes "ref"
  let target ← Phase.top
  let g := (← get).graph
  if ((g.get? target).map fun c => c.aggregation "appender") ≠ some .asCollection then
    Phase.fail (.unexpectedObject
      ("Could not find an appender attachable at the top of the stack, found " ++
        g.className target))
  else do
    let appender ← Phase.orFail
      (.unresolvedReference reference
        ("Could not find an appender named [" ++ reference ++
          "]. Did you define it below instead of above in the configuration file?"))
      ((← get).appender? reference)
    Phase.changeGraph fun g => g.addToCollection target "appender" appender
    let owner := (← get).graph
    let ownerName := ((owner.get? target).bind fun c => c.valueOf? "name").map Value.display
    Phase.info ("Attaching appender named [" ++ reference ++ "] to [" ++
      ownerName.getD (owner.className target) ++ "]")
    pure none

/-- Attaches a declared appender to the object on top of the stack. -/
def appenderRef : Action where
  name := "AppenderRefAction"
  begin := beginAppenderRef

def beginLayout (element : String) (attributes : Attributes) : Phase (Option ActionData) := do
  let className ← Phase.requiredAttribute element attributes "class"
  let layout ← Phase.instantiate className .layout
  Phase.push layout
  pure (some (.component layout))

def finishLayout (element : String) : Option ActionData → Phase Unit
  | some (.component layout) => do
    Phase.activate layout
    if ← Phase.popExpected layout "layout" then do
      let owner ← Phase.orFail (.unexpectedObject "no owner for the layout") (← get).top?
      Phase.changeGraph fun g => g.fillSlot owner element layout
  | _ => pure ()

/-- Gives the object on top of the stack a layout, once it is activated. -/
def layout : Action where
  name := "LayoutAction"
  begin := beginLayout
  finish := finishLayout

end LogConfig.Actions
