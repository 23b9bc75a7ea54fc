import LogConfig.Session

/-
  Actions: what is done for an element. An action begins when the element opens, receives the
  text of the element when it closes, and ends; what it begins with is handed on to the later
  phases. A phase changes the session and ends normally or with a signal.

  Two actions with the same name may still be two instances; `instanceId` tells them apart.
-/

namespace LogConfig

/-- The attributes of an element, in the order of the document. -/
abbrev Attributes := List (String × String)

/-- A step that changes the session and may end with a signal; changes made before it stay. -/
abbrev Phase (α : Type) := EStateM Signal Session α

/-- What an action keeps from its begin to its end for one element. -/
inductive ActionData where
  /-- The component that the element configures. -/
  | component (r : Ref)
  /-- A component still to be attached to its parent. -/
  | nested (parent : Ref) (aggregation : Aggregation) (child : Ref)
  /-- The component whose property the element sets. -/
  | owner (r : Ref)
  /-- Anything else. -/
  | note (text : String)
deriving DecidableEq, Repr, Inhabited

structure Action where
  instanceId : Nat := 0
  name : String
  begin : String → Attributes → Phase (Option ActionData)
  /-- Takes the text of the element; the data may change even when the phase does not succeed. -/
  body : String → String → Option ActionData → Session →
    EStateM.Result Signal Session Unit × Option ActionData :=
      fun _ _ data session => (.ok () session, data)
  finish : String → Option ActionData → Phase Unit := fun _ _ => pure ()

/-- An action for elements that no rule covers, with the test whether it takes an element. -/
structure ImplicitAction where
  action : Action
  applies : ElementPath → Attributes → Session → Bool

namespace Phase

def fail {α : Type} (e : ConfigError) : Phase α := throw (.failed e)

/-- The value of a computation that may fail with a configuration error. -/
def ofExcept {α : Type} : Except ConfigError α → Phase α
  | .ok a => pure a
  | .error e => fail e

/-- The value, or the error where there is none. -/
def orFail {α : Type} (e : ConfigError) : Option α → Phase α
  | some a => pure a
  | none => fail e

/-- The text with its references expanded. -/
def substitute (text : String) : Phase String := do
  match (← get).substitute text with
  | .ok expanded => pure expanded
  | .error e => fail (.substitution e)

/-- The value of an attribute: trimmed, expanded and trimmed again. A blank attribute counts as
absent. -/
def attribute? (attributes : Attributes) (name : String) : Phase (Option String) := do
  match (Entries.find? name attributes).map Text.trim with
  | some raw =>
    if raw = "" then pure none
    else do
      let expanded ← substitute raw
      pure (some (Text.trim expanded))
  | none => pure none

/-- The value of an attribute that must be there and must not be empty. -/
def requiredAttribute (element : String) (attributes : Attributes) (name : String) :
    Phase String := do
  match ← attribute? attributes name with
  | some value => if value = "" then fail (.missingAttribute element name) else pure value
  | none => fail (.missingAttribute element name)

def info (message : String) : Phase Unit := modify fun s => s.info message

def warn (code : DiagnosticCode) (message : String) : Phase Unit := modify fun s => s.warn code message

def recordError (e : ConfigError) : Phase Unit := modify fun s => s.recordError e

/-- Adds a component to the graph. -/
def create (c : Component) : Phase Ref := do
  let s ← get
  set { s with graph := s.graph.add c }
  pure s.graph.next

/-- Adds an instance of a class that can serve as a kind. -/
def instantiate (className : String) (kind : ComponentKind) : Phase Ref := do
  let c ← ofExcept ((← get).classes.instanceOfKind? className kind)
  create c

/-- Changes the graph by an operation that may refuse. -/
def changeGraph (f : Graph → Except PropertyError Graph) : Phase Unit := do
  let s ← get
  match f s.graph with
  | .ok graph => set { s with graph }
  | .error e => fail (.property e)

/-- The object on top of the stack. -/
def top : Phase Ref := do
  orFail (.unexpectedObject "the object stack is empty") (← get).top?

/-- The logger context at the bottom of the stack. -/
def context : Phase (Ref × LoggerContext) := do
  orFail (.unexpectedObject "no logger context at the bottom of the stack") (← get).context?

def push (r : Ref) : Phase Unit := modify fun s => s.push r

/-- Pops an object that must be on top; another object on top is left there with a warning. -/
def popExpected (expected : Ref) (what : String) : Phase Bool := do
  let s ← get
  if s.top? = some expected then do
    set s.pop
    pure true
  else do
    set (s.warn .stackDiscipline
      ("The object at the top of the stack is not the " ++ what ++ " pushed earlier"))
    pure false

/-- Activates a component that can be activated; a refusal is recorded. -/
def activate (r : Ref) : Phase Unit := do
  let s ← get
  match s.graph.get? r with
  | some c =>
    match c.activate? with
    | some (.ok active) => set { s.noteActivation r with graph := s.graph.put r active }
    | some (.error reason) =>
      set ((s.noteActivation r).recordError (.activation c.className reason))
    | none => pure ()
  | none => pure ()

end Phase

namespace Action

/-- A body phase that leaves the data of the element as it is. -/
def keepingData (f : String → String → Option ActionData → Phase Unit) :
    String → String → Option ActionData → Session →
      EStateM.Result Signal Session Unit × Option ActionData :=
  fun element text data session => (f element text data session, data)

end Action
end LogConfig
