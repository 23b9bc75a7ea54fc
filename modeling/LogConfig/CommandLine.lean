import LogConfig.Configurator

/-
  The command `check FILE`: runs the document in a file over a new context and prints the report.
  Options choose the format, ask for every diagnostic, and define properties. The exit code is 0
  without errors, 1 with errors, and 2 if the arguments are wrong or the file cannot be read.
-/

namespace LogConfig.CommandLine

inductive Format where
  | text | json
deriving DecidableEq, Repr, Inhabited

/-- What the arguments ask for. -/
structure Request where
  file : Option String := none
  format : Option Format := none
  debug : Bool := false
  definitions : List (String × String) := []
deriving DecidableEq, Repr, Inhabited

/-- What a command does: its exit code and what it prints. -/
structure Outcome where
  exitCode : Nat
  output : String
deriving DecidableEq, Repr, Inhabited

def formatOf? (text : String) : Option Format :=
  if text = "text" then some .text else if text = "json" then some .json else none

/-- Splits a definition at its first equals sign; the key is trimmed and must not be empty. -/
def definitionOf? (text : String) : Option (String × String) :=
  match text.toList.dropWhile (· ≠ '=') with
  | [] => none
  | _ :: value =>
    let key := Text.trim (String.ofList (text.toList.takeWhile (· ≠ '=')))
    if key = "" then none else some (key, String.ofList value)

def setFile? (r : Request) (text : String) : Option Request :=
  if text = "" || r.file.isSome then none else some { r with file := some text }

/-- Sets the format; it can be given once. -/
def setFormat? (r : Request) (text : String) : Option Request :=
  if r.format.isSome then none
  else (formatOf? text).map fun format => { r with format := some format }

def setDebug? (r : Request) : Option Request :=
  if r.debug then none else some { r with debug := true }

def define? (r : Request) (text : String) : Option Request :=
  (definitionOf? text).map fun entry => { r with definitions := r.definitions ++ [entry] }

/-- Whether an argument is an option, so that it cannot be the value of another. -/
def isOption (arg : String) : Bool :=
  match arg.toList with
  | '-' :: _ :: _ => true
  | _ => false

/-- An argument, by what it asks for. -/
inductive Argument where
  | file (name : String)
  | debug
  /-- The format; its value follows as the next argument unless it is given here. -/
  | format (value : Option String)
  | definition (value : Option String)
  /-- The rest of the arguments are files. -/
  | separator
  | unknown
deriving DecidableEq, Repr, Inhabited

/-- The value attached to a one-letter option, after an equals sign if there is one. -/
def attached : List Char → Option String
  | [] => none
  | '=' :: value => some (String.ofList value)
  | value => some (String.ofList value)

/-- What an argument asks for. -/
def argument (arg : String) : Argument :=
  if arg = "--" then .separator
  else if arg = "--debug" then .debug
  else if arg = "--format" then .format none
  else if "--format=".toList <+: arg.toList then
    .format (some (String.ofList (arg.toList.drop "--format=".length)))
  else
    match arg.toList with
    | '-' :: 'f' :: value => .format (attached value)
    | '-' :: 'D' :: value => .definition (attached value)
    | '-' :: _ :: _ => .unknown
    | _ => .file arg

/-- The request of the arguments after `check`; nothing where they are wrong. -/
def request? : Request → List String → Option Request
  | r, [] => some r
  | r, arg :: rest =>
    match argument arg with
    | .file name => do request? (← setFile? r name) rest
    | .debug => do request? (← setDebug? r) rest
    | .format (some value) => do request? (← setFormat? r value) rest
    | .definition (some value) => do request? (← define? r value) rest
    | .format none =>
      match rest with
      | value :: rest => if isOption value then none else do request? (← setFormat? r value) rest
      | [] => none
    | .definition none =>
      match rest with
      | value :: rest => if isOption value then none else do request? (← define? r value) rest
      | [] => none
    | .separator => rest.foldlM setFile? r
    | .unknown => none

/-- The name of a file without its last extension. -/
def stem (name : String) : String :=
  match name.toList.reverse.dropWhile (· ≠ '.') with
  | _ :: c :: before => String.ofList (c :: before).reverse
  | _ => name

/-- The name of the context for a file: the stem of its name. -/
def contextName (path : String) : String :=
  let steps := (Text.pieces '/' path.toList).map String.ofList
  match (steps.filter fun step => !Environment.isIdleStep step).getLast? with
  | some name => if name = ".." then "default" else stem name
  | none => "default"

/-- Runs the document in a file and prints its report. -/
def check (env : Environment) (r : Request) (file : String) : Outcome :=
  let (graph, context) := Graph.empty.addContext (contextName file)
  let configurator : Configurator :=
    { context, environment := env, options := { properties := r.definitions, debug := r.debug } }
  match configurator.readDocument file with
  | .error _ => ⟨2, ""⟩
  | .ok source =>
    let (_, report) := configurator.configure graph source
    let output :=
      match r.format.getD .text with
      | .text => report.text
      | .json => report.toJson.text ++ "\n"
    ⟨if report.hasErrors then 1 else 0, output⟩

/-- Runs a command. -/
def run (env : Environment) : List String → Outcome
  | "check" :: args =>
    match request? {} args with
    | some r =>
      match r.file with
      | some file => check env r file
      | none => ⟨2, ""⟩
    | none => ⟨2, ""⟩
  | _ => ⟨2, ""⟩

end LogConfig.CommandLine
