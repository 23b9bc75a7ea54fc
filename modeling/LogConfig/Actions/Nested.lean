import LogConfig.Action

/-
  The actions that set up the object on top of the stack: a parameter given by attributes, a
  nested component given by its class, and a property given by the text of an element. The last
  two take the elements that no rule covers, when the object publishes a property of their name.
-/

namespace LogConfig.Actions

def beginParam (element : String) (attributes : Attributes) : Phase (Option ActionData) := do
  let name ← Phase.requiredAttribute element attributes "name"
  let raw ← Phase.orFail (.missingAttribute element "value") (Entries.find? "value" attributes)
  let value ← Phase.substitute raw
  let target ← Phase.top
  let s ← get
  match s.graph.setFromText target name (Text.trim value) with
  | .ok graph => set { s with graph }
  | .error (.notFound property owner) =>
    set (s.record ((Diagnostic.warning .property
      ("Ignoring parameter [" ++ name ++ "] for " ++ s.graph.className target)).withCause
        (PropertyError.notFound property owner).message))
  | .error e => Phase.recordError (.property e)
  pure none

/-- Sets one property of the object on top of the stack. -/
def param : Action where
  name := "ParamAction"
  begin := beginParam

def beginNestedComponent (element : String) (attributes : Attributes) :
    Phase (Option ActionData) := do
  let parent ← Phase.top
  let g := (← get).graph
  let kind ← Phase.orFail
    (.unexpectedObject (g.className parent ++ " has no component slot named [" ++ element ++ "]"))
    ((g.get? parent).bind fun c => c.childKind? element)
  let className ← Phase.requiredAttribute element attributes "class"
  let child ← Phase.instantiate className kind
  Phase.push child
  let aggregation := ((g.get? parent).map fun c => c.aggregation element).getD .notFound
  pure (some (.nested parent aggregation child))

def finishNestedComponent (element : String) : Option ActionData → Phase Unit
  | some (.nested parent aggregation child) => do
    Phase.activate child
    if ← Phase.popExpected child element then
      Phase.changeGraph fun g => g.attach parent aggregation element child
  | _ => pure ()

/-- Creates a component of the named class, configured by the elements inside, and attaches it
to its parent once it is activated. -/
def nestedComponent : Action where
  name := "NestedComplexPropertyAction"
  begin := beginNestedComponent
  finish := finishNestedComponent

/-- Sets the property that an element is named after. -/
def setFromBody (element text : String) : Option ActionData → Phase Unit
  | some (.owner parent) => do
    let value ← Phase.substitute text
    let s ← get
    match s.graph.setFromText parent element value with
    | .ok graph => set { s with graph }
    | .error e => Phase.recordError (.property e)
  | _ => pure ()

/-- Sets a property of the object on top of the stack from the text of the element. -/
def nestedProperty : Action where
  name := "NestedBasicPropertyAction"
  begin _ _ := do
    let parent ← Phase.top
    pure (some (.owner parent))
  body := Action.keepingData setFromBody

/-- Nested components, for elements that name a slot or collection of the object on top. -/
def implicitComponent : ImplicitAction where
  action := nestedComponent
  applies path _ s :=
    match path.last?, s.topComponent? with
    | some tag, some c => c.aggregation tag ≠ .notFound
    | _, _ => false

/-- Nested properties, for elements that name a basic property of the object on top. -/
def implicitProperty : ImplicitAction where
  action := nestedProperty
  applies path _ s :=
    match path.last?, s.topComponent? with
    | some tag, some c => (c.basicType? tag).isSome
    | _, _ => false

end LogConfig.Actions
