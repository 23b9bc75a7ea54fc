import LogConfig.Action
import LogConfig.PropertyFile

/-
  The actions for the document and the logger context: the root element, the context's name,
  properties, conversion rules, and rules that the document adds itself.
-/

namespace LogConfig.Actions

def beginConfiguration (_element : String) (attributes : Attributes) :
    Phase (Option ActionData) := do
  match ← Phase.attribute? attributes "debug" with
  | some flag =>
    if Text.eqIgnoringCase flag "true" then do
      modify fun s => { s with debug := true }
      Phase.info "debug attribute set to true"
    else if Text.eqIgnoringCase flag "false" then pure ()
    else Phase.info ("Ignoring debug attribute value [" ++ flag ++ "]")
  | none => pure ()
  pure none

/-- Takes the root element of a document. -/
def configuration : Action where
  name := "ConfigurationAction"
  begin := beginConfiguration
  finish _ _ := Phase.info "End of configuration."

/-- Gives the context the name in a text. -/
def nameContext (_element text : String) (_data : Option ActionData) : Phase Unit := do
  let name := Text.trim (← Phase.substitute text)
  let (r, c) ← Phase.context
  match c.rename name with
  | .ok renamed => do
    modify fun s => { s with graph := s.graph.put r (.context renamed) }
    Phase.info ("Setting logger context name as [" ++ name ++ "]")
  | .error reason => Phase.fail (.other reason)

/-- Names the context by the text of the element. -/
def contextName : Action where
  name := "ContextNameAction"
  begin _ _ := pure none
  body := Action.keepingData nameContext

def beginConversionRule (element : String) (attributes : Attributes) :
    Phase (Option ActionData) := do
  let word ← Phase.requiredAttribute element attributes "conversionWord"
  let converter ← Phase.requiredAttribute element attributes "converterClass"
  let (r, c) ← Phase.context
  modify fun s => { s with graph := s.graph.put r (.context (c.putConversionRule word converter)) }
  let known := Entries.find? word c.conversionRules
  if known.getD converter ≠ converter then
    Phase.warn .status ("Conversion word [" ++ word ++ "] was bound to [" ++ known.getD "" ++
      "], now bound to [" ++ converter ++ "]")
  else
    Phase.info ("Registering conversion word [" ++ word ++ "] with class [" ++ converter ++ "]")
  pure none

/-- Binds a conversion word to a class. -/
def conversionRule : Action where
  name := "ConversionRuleAction"
  begin := beginConversionRule

/-- Whether a property outlives the session. -/
inductive PropertyScope where
  | session | context
deriving DecidableEq, Repr

/-- The scope that an attribute names; an unknown one is the session, with a warning. -/
def propertyScope : Option String → Phase PropertyScope
  | none => pure .session
  | some scope =>
    if Text.eqIgnoringCase scope "local" then pure .session
    else if Text.eqIgnoringCase scope "context" || Text.eqIgnoringCase scope "system" then
      pure .context
    else do
      Phase.warn .invalidAttributes
        ("Unknown property scope [" ++ scope ++ "], using local scope")
      pure .session

/-- Defines a property in a session and, where the scope says so, in its context. -/
def defineIn (scope : PropertyScope) (s : Session) (key value : String) : Session :=
  let defined := s.defineProperty key value
  match scope with
  | .session => defined
  | .context => defined.modifyContext fun c => c.putProperty (Text.trim key) (Text.trim value)

/-- Defines the properties in a file and counts them. -/
def loadProperties (scope : PropertyScope) (path : String) : Phase Nat := do
  let s ← get
  match s.environment.readText path with
  | .ok text => do
    let entries := PropertyFile.parse text
    set (entries.foldl (fun s (key, value) => defineIn scope s key value) s)
    pure entries.length
  | .error problem => Phase.fail (.io path problem.message)

def beginProperty (element : String) (attributes : Attributes) : Phase (Option ActionData) := do
  let name ← Phase.attribute? attributes "name"
  let value ← Phase.attribute? attributes "value"
  let file ← Phase.attribute? attributes "file"
  let scope ← propertyScope (← Phase.attribute? attributes "scope")
  match name, value, file with
  | some name, some value, none => modify fun s => defineIn scope s name value
  | none, none, some file => do
    let count ← loadProperties scope file
    Phase.info ("Loaded " ++ Text.decimal count ++ " properties from [" ++ file ++ "]")
  | _, _, _ =>
    Phase.fail (.invalidAttributes element
      ("In <" ++ element ++ "> element, either the \"file\" attribute alone, or the \"name\" " ++
        "and \"value\" attributes must be set"))
  pure none

/-- Defines one property, or all those in a file. -/
def property : Action where
  name := "PropertyAction"
  begin := beginProperty

def beginNewRule (element : String) (attributes : Attributes) : Phase (Option ActionData) := do
  let pattern ← Phase.requiredAttribute element attributes "pattern"
  let actionClass ← Phase.requiredAttribute element attributes "actionClass"
  Phase.info ("About to add new rule with pattern [" ++ pattern ++ "] and action [" ++
    actionClass ++ "]")
  modify fun s => s.requestRule (ElementPath.parse pattern) actionClass
  pure none

/-- Asks for a rule that holds for the rest of the document. -/
def newRule : Action where
  name := "NewRuleAction"
  begin := beginNewRule

end LogConfig.Actions
