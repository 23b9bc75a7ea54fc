import LogConfig.Accessor
import LogConfig.ClassRegistry
import LogConfig.ElementPath
import LogConfig.Environment
import LogConfig.LoggerTree
import LogConfig.Substitution

/-
  Sessions: the state that the actions of one run share. A session holds the component graph, the
  stack of objects under configuration with the logger context at its bottom, objects by name,
  properties, the diagnostics recorded so far and the rules that were asked for.
-/

namespace LogConfig

/-- An object that actions keep under a name. -/
inductive NamedObject where
  | number (n : Int64)
  | text (s : String)
  | texts (lines : List String)
  /-- Appenders by name, in the order in which the names were first used. -/
  | appenders (bag : List (String × Ref))
deriving DecidableEq, Repr, Inhabited

/-- A call that activates a component, with the graph it was made in. -/
structure Activation where
  component : Ref
  graph : Graph

namespace Activation

/-- What the component made of the call: it is active, or it refused. -/
def outcome? (x : Activation) : Option (Except String Component) :=
  (x.graph.get? x.component).bind Component.activate?

end Activation

structure Session where
  graph : Graph := {}
  /-- The objects under configuration, innermost first. -/
  stack : List Ref := []
  objects : List (String × NamedObject) := []
  diagnostics : List Diagnostic := []
  properties : List (String × String) := []
  /-- Values that stand in for variables of the process. -/
  overrides : List (String × String) := []
  /-- Whether the variables of the process are looked up at all. -/
  usesProcessVariables : Bool := true
  environment : Environment := {}
  location : Option Location := none
  classes : ClassRegistry := {}
  /-- Rules asked for and not yet installed, oldest first. -/
  ruleRequests : List (ElementPath × String) := []
  debug : Bool := false
  /-- The activations called so far, latest first. They are a record only; no phase reads them. -/
  activations : List Activation := []

namespace Session

/-! ### Objects under configuration -/

def push (s : Session) (r : Ref) : Session := { s with stack := r :: s.stack }

/-- Without the top object. -/
def pop (s : Session) : Session := { s with stack := s.stack.tail }

def top? (s : Session) : Option Ref := s.stack.head?

def depth (s : Session) : Nat := s.stack.length

/-- The object at a place counted from the bottom. -/
def object? (s : Session) (i : Nat) : Option Ref := s.stack.reverse[i]?

/-- The component on top of the stack. -/
def topComponent? (s : Session) : Option Component := s.top?.bind s.graph.get?

/-- The logger context at the bottom of the stack, with its handle. -/
def context? (s : Session) : Option (Ref × LoggerContext) :=
  s.stack.getLast?.bind fun r => (s.graph.context? r).map fun c => (r, c)

/-- Changes the logger context at the bottom of the stack, where there is one. -/
def modifyContext (s : Session) (f : LoggerContext → LoggerContext) : Session :=
  match s.context? with
  | some (r, c) => { s with graph := s.graph.put r (.context (f c)) }
  | none => s

/-! ### Named objects -/

def putObject (s : Session) (key : String) (value : NamedObject) : Session :=
  { s with objects := Entries.insert key value s.objects }

def removeObject (s : Session) (key : String) : Session :=
  { s with objects := Entries.erase key s.objects }

/-- The number kept under a name. -/
def number? (s : Session) (key : String) : Option Int64 :=
  match Entries.find? key s.objects with
  | some (.number n) => some n
  | _ => none

/-- The text kept under a name. -/
def text? (s : Session) (key : String) : Option String :=
  match Entries.find? key s.objects with
  | some (.text t) => some t
  | _ => none

/-- The texts kept under a name. -/
def texts (s : Session) (key : String) : List String :=
  match Entries.find? key s.objects with
  | some (.texts lines) => lines
  | _ => []

/-- Adds to the texts kept under a name. -/
def addText (s : Session) (key line : String) : Session :=
  s.putObject key (.texts (s.texts key ++ [line]))

/-- The name under which the appenders of a session are kept. -/
def appenderBagKey : String := "APPENDER_BAG"

/-- The appenders of the session by name. -/
def appenderBag (s : Session) : List (String × Ref) :=
  match Entries.find? appenderBagKey s.objects with
  | some (.appenders bag) => bag
  | _ => []

def appender? (s : Session) (name : String) : Option Ref := Entries.find? name s.appenderBag

/-- Keeps an appender under a name, in place of one of the same name. -/
def keepAppender (s : Session) (name : String) (r : Ref) : Session :=
  s.putObject appenderBagKey (.appenders (Entries.insert name r s.appenderBag))

/-! ### Diagnostics -/

/-- Records a diagnostic, at the place reached unless it has one. -/
def record (s : Session) (d : Diagnostic) : Session :=
  { s with diagnostics := s.diagnostics ++ [d.atLocation s.location] }

def info (s : Session) (message : String) : Session := s.record (.info message)

def warn (s : Session) (code : DiagnosticCode) (message : String) : Session :=
  s.record (.warning code message)

def fault (s : Session) (code : DiagnosticCode) (message : String) : Session :=
  s.record (.error code message)

def recordError (s : Session) (e : ConfigError) : Session := s.fault e.code e.message

def hasErrors (s : Session) : Bool := s.diagnostics.any Diagnostic.isError

/-- Notes that the activation of a component is called. -/
def noteActivation (s : Session) (r : Ref) : Session :=
  { s with activations := ⟨r, s.graph⟩ :: s.activations }

/-- Without the diagnostics recorded so far. -/
def dropDiagnostics (s : Session) : Session := { s with diagnostics := [] }

def atPlace (s : Session) (location : Option Location) : Session := { s with location }

/-! ### Properties and substitution -/

/-- Defines a property; blanks around key and value are dropped, an empty key is ignored. -/
def defineProperty (s : Session) (key value : String) : Session :=
  if Text.trim key = "" then s
  else { s with properties := Entries.insert (Text.trim key) (Text.trim value) s.properties }

def defineProperties (s : Session) (entries : List (String × String)) : Session :=
  entries.foldl (fun s entry => s.defineProperty entry.1 entry.2) s

/-- Stands a value in for a variable of the process. -/
def overrideVariable (s : Session) (key value : String) : Session :=
  { s with overrides := Entries.insert key value s.overrides }

/-- What a reference can mean, nearest first: properties of the session, those of the context,
overridden variables, and the variables of the process where they are looked up. -/
def definitions (s : Session) : List (String × String) :=
  s.properties ++ ((s.context?.map fun (_, c) => c.properties).getD []) ++ s.overrides ++
    (if s.usesProcessVariables then s.environment.definitions else [])

/-- The values that references in this session expand to. -/
def lookup (s : Session) : Substitution.Lookup := .ofEntries s.definitions

/-- Expands the references in a text. -/
def substitute (s : Session) (text : String) : Except SubstitutionError String :=
  Substitution.substitute s.lookup text

/-! ### Rules asked for -/

def requestRule (s : Session) (pattern : ElementPath) (actionClass : String) : Session :=
  { s with ruleRequests := s.ruleRequests ++ [(pattern, actionClass)] }

def dropRuleRequests (s : Session) : Session := { s with ruleRequests := [] }

/-! ### Description -/

/-- The text of a place in a description. -/
def describePlace : Option Location → String
  | none => "None"
  | some l =>
    "Some(SourceLocation \x7b line: " ++ Text.decimal l.line ++ ", column: " ++
      Text.decimal l.column ++ " \x7d)"

/-- The text that describes a session. -/
def describe (s : Session) : String :=
  "ExecutionContext \x7b stack_depth: " ++ Text.decimal s.depth ++
    ", named_objects: " ++ Text.quotedList (Entries.keys s.objects) ++
    ", diagnostics: " ++ Text.decimal s.diagnostics.length ++
    ", properties: " ++ Text.quotedEntries s.properties ++
    ", location: " ++ describePlace s.location ++ " \x7d"

end Session
end LogConfig
