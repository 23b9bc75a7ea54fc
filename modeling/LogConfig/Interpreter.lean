import LogConfig.Document.Event
import LogConfig.RuleStore

/-
  The interpreter turns the events of a document into phases of actions. It keeps the path of
  open elements, one frame for each with the actions that began, and whether it is skipping: an
  action may ask to skip the children of its element or the elements that follow it, up to the
  end of the element whose path is the marker of the skip.

  `step` takes one event and `run` all events of a document.
-/

namespace LogConfig

/-- Whether elements are dispatched. A skip holds the path of the element that ends it. -/
inductive DispatchState where
  | idle
  | parsing
  | skippingChildren (marker : ElementPath)
  | skippingSiblings (marker : ElementPath)
deriving DecidableEq, Repr, Inhabited

namespace DispatchState

def marker? : DispatchState → Option ElementPath
  | skippingChildren marker => some marker
  | skippingSiblings marker => some marker
  | _ => none

def isSkipping (s : DispatchState) : Bool := s.marker?.isSome

/-- The state in which the children of the element at a path are skipped. -/
def skipChildren (path : ElementPath) : DispatchState → DispatchState
  | skippingSiblings marker => skippingSiblings marker
  | _ => skippingChildren path

end DispatchState

/-- An action that began for an open element. -/
structure Invocation where
  action : Action
  data : Option ActionData

/-- A phase of an action that was called, with all it was given. -/
inductive Call where
  | begin (a : Action) (name : String) (attributes : Attributes) (s : Session)
  | body (a : Action) (name text : String) (data : Option ActionData) (s : Session)
  | finish (a : Action) (name : String) (data : Option ActionData) (s : Session)

/-- What is kept of an open element: the actions that began, in order, and its text so far. -/
structure Frame where
  invocations : List Invocation := []
  text : String := ""

structure Interpreter where
  rules : RuleStore
  /-- Actions for elements that no rule covers; the first that applies takes the element. -/
  implicit : List ImplicitAction := []
  session : Session
  /-- The path of the innermost open element. -/
  path : ElementPath := .empty
  /-- One frame for each open element, innermost first. -/
  frames : List Frame := []
  state : DispatchState := .idle
  /-- The phases called so far, latest first. They are a record only; no event depends on them. -/
  calls : List Call := []

namespace Interpreter

def onSession (i : Interpreter) (f : Session → Session) : Interpreter :=
  { i with session := f i.session }

/-- The actions for the element at the current path. An element that nothing takes is recorded. -/
def actionsFor (i : Interpreter) (attributes : Attributes) : Interpreter × List Action :=
  match i.rules.match? i.path with
  | some actions => (i, actions)
  | none =>
    match i.implicit.find? fun rule => rule.applies i.path attributes i.session with
    | some rule => (i, [rule.action])
    | none =>
      (i.onSession fun s => s.warn .unmatchedElement
        ("no applicable action for [" ++ i.path.last?.getD "" ++ "], current path is " ++
          i.path.render), [])

/-- Records that a phase of an action failed. -/
def recordFailure (i : Interpreter) (a : Action) (phase : String) (e : ConfigError) : Interpreter :=
  i.onSession fun s => s.record
    ((Diagnostic.error e.code (a.name ++ " failed in " ++ phase ++ "()")).withCause e.message)

/-- Skips the elements that follow the current one inside its parent. -/
def skipSiblings (i : Interpreter) : Interpreter :=
  { i with state := .skippingSiblings i.path.parent }

/-- What a signal from a begin phase leads to. -/
def onBeginSignal (i : Interpreter) (a : Action) : Signal → Interpreter
  | .skipChildren => { i with state := i.state.skipChildren i.path }
  | .skipSiblings => i.skipSiblings
  | .failed e =>
    let recorded := i.recordFailure a "begin" e
    { recorded with state := recorded.state.skipChildren i.path }

/-- What a signal from a body or end phase leads to; the children are closed by then. -/
def onLateSignal (i : Interpreter) (a : Action) (phase : String) : Signal → Interpreter
  | .skipChildren => i
  | .skipSiblings => if i.state.isSkipping then i else i.skipSiblings
  | .failed e => i.recordFailure a phase e

/-- Installs one rule that was asked for; one that names no action is recorded. -/
def installRule (i : Interpreter) (request : ElementPath × String) : Interpreter :=
  match i.rules.addByName request.1 request.2 with
  | (rules, .ok ()) => { i with rules }
  | (rules, .error e) =>
    { i with rules }.onSession fun s => s.record
      ((Diagnostic.warning .ruleRegistration
        ("Could not add rule " ++ request.1.render ++ " -> [" ++ request.2 ++ "]")).withCause
          e.message)

/-- Installs the rules asked for so far. -/
def installRules (i : Interpreter) : Interpreter :=
  i.session.ruleRequests.foldl installRule { i with session := i.session.dropRuleRequests }

/-- Notes that a phase is called. -/
def note (i : Interpreter) (call : Call) : Interpreter := { i with calls := call :: i.calls }

/-- Begins one action for an element; nothing is kept of one that does not succeed. -/
def beginAction (name : String) (attributes : Attributes) (i : Interpreter) (a : Action) :
    Interpreter × Option Invocation :=
  let i := i.note (.begin a name attributes i.session)
  match a.begin name attributes i.session with
  | .ok data session => ({ i with session }.installRules, some ⟨a, data⟩)
  | .error signal session => ((onBeginSignal { i with session } a signal).installRules, none)

/-- Begins actions for an element, in order. -/
def beginActions (name : String) (attributes : Attributes) :
    Interpreter → List Action → Interpreter × List Invocation
  | i, [] => (i, [])
  | i, a :: rest =>
    let (i, invocation) := beginAction name attributes i a
    let (i, invocations) := beginActions name attributes i rest
    (i, invocation.toList ++ invocations)

/-- Gives one action the text of its element. -/
def bodyAction (name text : String) (i : Interpreter) (v : Invocation) :
    Interpreter × Invocation :=
  let i := i.note (.body v.action name text v.data i.session)
  match v.action.body name text v.data i.session with
  | (.ok () session, data) => ({ i with session }.installRules, { v with data })
  | (.error signal session, data) =>
    ((onLateSignal { i with session } v.action "body" signal).installRules, { v with data })

/-- Gives actions the text of their element, in order. -/
def bodyActions (name text : String) :
    Interpreter → List Invocation → Interpreter × List Invocation
  | i, [] => (i, [])
  | i, v :: rest =>
    let (i, v) := bodyAction name text i v
    let (i, rest) := bodyActions name text i rest
    (i, v :: rest)

/-- Ends one action. -/
def finishAction (name : String) (i : Interpreter) (v : Invocation) : Interpreter :=
  let i := i.note (.finish v.action name v.data i.session)
  match v.action.finish name v.data i.session with
  | .ok () session => { i with session }.installRules
  | .error signal session =>
    (onLateSignal { i with session } v.action "end" signal).installRules

/-- Closes an element: its actions receive its text, unless that is blank or was skipped, and
then end. -/
def closeFrame (i : Interpreter) (name : String) (frame : Frame) (deliversText : Bool) :
    Interpreter :=
  let text := Text.trim frame.text
  let (i, invocations) :=
    if deliversText && text ≠ "" then bodyActions name text i frame.invocations
    else (i, frame.invocations)
  invocations.foldl (finishAction name) i

/-- An element opens. -/
def startElement (i : Interpreter) (name : String) (attributes : Attributes) : Interpreter :=
  let i := { i with
    state := if i.state = DispatchState.idle then .parsing else i.state
    path := i.path.push name }
  if i.state.isSkipping then { i with frames := {} :: i.frames }
  else
    let (i, actions) := i.actionsFor attributes
    let (i, invocations) := beginActions name attributes i actions
    { i with frames := { invocations } :: i.frames }

/-- Text inside the innermost open element. -/
def characters (i : Interpreter) (text : String) : Interpreter :=
  if i.state.isSkipping then i
  else
    match i.frames with
    | [] => i
    | frame :: outer => { i with frames := { frame with text := frame.text ++ text } :: outer }

/-- An element closes. A skip ends with the element at its marker. -/
def endElement (i : Interpreter) (name : String) : Interpreter :=
  match i.frames with
  | [] => i.onSession fun s => s.warn .parser ("Unbalanced end of element [" ++ name ++ "]")
  | frame :: outer =>
    let resumes := decide (i.state.marker? = some i.path)
    let popped := { i with frames := outer, state := if resumes then .parsing else i.state }
    let closed := popped.closeFrame name frame (resumes || !i.state.isSkipping)
    { closed with path := closed.path.parent }

/-- Closes up to `n` open elements, innermost first. -/
def closeElements : Nat → Interpreter → Interpreter
  | 0, i => i
  | n + 1, i =>
    match i.path.last? with
    | none => i
    | some tag => closeElements n (i.endElement tag)

/-- The document ends; elements still open are closed with a warning. -/
def endDocument (i : Interpreter) : Interpreter :=
  let closed :=
    if i.frames.isEmpty then i
    else
      closeElements i.frames.length (i.onSession fun s => s.warn .parser
        ("Document ended with " ++ Text.decimal i.frames.length ++
          " unclosed element(s), current path is " ++ i.path.render))
  { closed with path := .empty, frames := [], state := .idle }

/-- Takes one event of a document. -/
def step (i : Interpreter) : DocumentEvent → Interpreter
  | .startDocument => { i with state := .parsing }
  | .place location => i.onSession fun s => s.atPlace (some location)
  | .startElement name attributes => i.startElement name attributes
  | .characters text => i.characters text
  | .endElement name => i.endElement name
  | .endDocument => i.endDocument
  | .warning message => i.onSession fun s => s.record ⟨.warning, .parser, message, none, none⟩
  | .error message => i.onSession fun s => s.record ⟨.error, .parser, message, none, none⟩
  | .fatal message => i.onSession fun s => s.record ⟨.fatal, .parser, message, none, none⟩

/-- Takes the events of a document. -/
def run (i : Interpreter) (events : List DocumentEvent) : Interpreter := events.foldl step i

end Interpreter
end LogConfig
