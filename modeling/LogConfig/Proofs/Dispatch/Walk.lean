import LogConfig.Interpreter

/-
  Dispatch as a recursive walk over a document tree. Where the interpreter takes one event at a
  time and keeps a path, a frame for each open element and a skip marker, the walk visits a node
  together with its children: it knows no events, no frames and no markers.

  An element is visited by calling the begin phase of its actions in order. What the signals of
  these phases ask for decides whether the children are visited, and those of the later phases
  whether the nodes that follow the element inside its parent are.
-/

namespace LogConfig

/-- A node of a document tree. -/
inductive Node where
  | text (s : String)
  | element (name : String) (attributes : Attributes) (children : List Node)

mutual

/-- The events that a reader tells of a node. -/
def Node.events : Node → List DocumentEvent
  | .text s => [.characters s]
  | .element name attributes children =>
    .startElement name attributes :: (Node.eventsOfAll children ++ [.endElement name])

/-- The events of nodes in order. -/
def Node.eventsOfAll : List Node → List DocumentEvent
  | [] => []
  | node :: rest => node.events ++ Node.eventsOfAll rest

end

/-- What a walk changes: the rules, the session, and the record of the phases called, latest
first. -/
structure Scene where
  rules : RuleStore
  session : Session
  calls : List Call := []

namespace Scene

/-- The actions for an element: those of its rule, else the first implicit action that applies,
else none with a warning. -/
def actionsFor (implicit : List ImplicitAction) (path : ElementPath) (attributes : Attributes)
    (sc : Scene) : Scene × List Action :=
  match sc.rules.match? path with
  | some actions => (sc, actions)
  | none =>
    match implicit.find? fun rule => rule.applies path attributes sc.session with
    | some rule => (sc, [rule.action])
    | none =>
      let message := "no applicable action for [" ++ path.last?.getD "" ++ "], current path is " ++
        path.render
      ({ sc with session := sc.session.warn .unmatchedElement message }, [])

/-- Binds one rule that was asked for; one that names no action is recorded. -/
def installRule (sc : Scene) (request : ElementPath × String) : Scene :=
  match sc.rules.addByName request.1 request.2 with
  | (rules, .ok ()) => { sc with rules }
  | (rules, .error e) =>
    { sc with
      rules
      session := sc.session.record
        ((Diagnostic.warning .ruleRegistration
          ("Could not add rule " ++ request.1.render ++ " -> [" ++ request.2 ++ "]")).withCause
            e.message) }

/-- Ends a phase: the failure it may have signalled is recorded, and the rules asked for so far
are bound. -/
def settle (sc : Scene) (a : Action) (phase : String) (outcome : Option Signal)
    (session : Session) : Scene :=
  let session := match outcome with
    | some (.failed e) => session.record
        ((Diagnostic.error e.code (a.name ++ " failed in " ++ phase ++ "()")).withCause e.message)
    | _ => session
  session.ruleRequests.foldl installRule { sc with session := session.dropRuleRequests }

def note (sc : Scene) (call : Call) : Scene := { sc with calls := call :: sc.calls }

/-- Calls the begin phase of actions in order: the actions that began, and what the others
signalled. -/
def beginAll (name : String) (attributes : Attributes) :
    Scene → List Action → Scene × List Invocation × List Signal
  | sc, [] => (sc, [], [])
  | sc, a :: rest =>
    let noted := sc.note (.begin a name attributes sc.session)
    match a.begin name attributes sc.session with
    | .ok data session =>
      let (sc, begun, signals) :=
        beginAll name attributes (noted.settle a "begin" none session) rest
      (sc, ⟨a, data⟩ :: begun, signals)
    | .error signal session =>
      let (sc, begun, signals) :=
        beginAll name attributes (noted.settle a "begin" (some signal) session) rest
      (sc, begun, signal :: signals)

/-- Calls the body phase of actions in order: the actions with their data afterwards, and what
was signalled. -/
def bodyAll (name text : String) : Scene → List Invocation → Scene × List Invocation × List Signal
  | sc, [] => (sc, [], [])
  | sc, v :: rest =>
    let noted := sc.note (.body v.action name text v.data sc.session)
    match v.action.body name text v.data sc.session with
    | (.ok () session, data) =>
      let (sc, begun, signals) := bodyAll name text (noted.settle v.action "body" none session) rest
      (sc, { v with data } :: begun, signals)
    | (.error signal session, data) =>
      let (sc, begun, signals) :=
        bodyAll name text (noted.settle v.action "body" (some signal) session) rest
      (sc, { v with data } :: begun, signal :: signals)

/-- Calls the end phase of actions in order, and collects what was signalled. -/
def finishAll (name : String) : Scene → List Invocation → Scene × List Signal
  | sc, [] => (sc, [])
  | sc, v :: rest =>
    let noted := sc.note (.finish v.action name v.data sc.session)
    match v.action.finish name v.data sc.session with
    | .ok () session => finishAll name (noted.settle v.action "end" none session) rest
    | .error signal session =>
      let (sc, signals) :=
        finishAll name (noted.settle v.action "end" (some signal) session) rest
      (sc, signal :: signals)

/-- Closes an element: its actions get its text, if any is left after trimming, and then end. -/
def close (name text : String) (sc : Scene) (begun : List Invocation) : Scene × List Signal :=
  if Text.trim text = "" then sc.finishAll name begun
  else
    let (sc, begun, signals) := sc.bodyAll name (Text.trim text) begun
    let (sc, later) := sc.finishAll name begun
    (sc, signals ++ later)

end Scene

/-- What a visit comes to: the scene it leaves, the text it adds to its parent, and whether all
that follows inside the parent is dropped. -/
structure Visit where
  scene : Scene
  text : String := ""
  dropsRest : Bool := false

mutual

/-- Visits a node whose parent is at a path. -/
def walk (implicit : List ImplicitAction) (path : ElementPath) (sc : Scene) : Node → Visit
  | .text s => { scene := sc, text := s }
  | .element name attributes children =>
    let here := path.push name
    let (sc, actions) := sc.actionsFor implicit here attributes
    let (sc, begun, signals) := sc.beginAll name attributes actions
    if .skipSiblings ∈ signals then
      { scene := (sc.finishAll name begun).1, dropsRest := true }
    else if signals ≠ [] then
      let (sc, late) := sc.finishAll name begun
      { scene := sc, dropsRest := .skipSiblings ∈ late }
    else
      let inside := walkAll implicit here sc children
      let (sc, late) := inside.scene.close name inside.text begun
      { scene := sc, dropsRest := .skipSiblings ∈ late }

/-- Visits nodes in order, up to one that drops those that follow. -/
def walkAll (implicit : List ImplicitAction) (path : ElementPath) (sc : Scene) : List Node → Visit
  | [] => { scene := sc }
  | node :: rest =>
    let first := walk implicit path sc node
    if first.dropsRest then first
    else
      let others := walkAll implicit path first.scene rest
      { others with text := first.text ++ others.text }

end

end LogConfig
