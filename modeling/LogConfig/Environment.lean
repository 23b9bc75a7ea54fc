import LogConfig.Entries
import LogConfig.Text.Bytes
import LogConfig.Text.Pieces

/-
  What a session finds around it: the variables of the process and the files of its working
  directory. A variable is looked up in entries of the form `NAME=VALUE`. A path is followed step
  by step; of the directories around the working directory nothing is known but that they are
  there.
-/

namespace LogConfig

/-- Why a file could not be read as a text. -/
inductive FileError where
  | zeroInPath | notFound | notDirectory | isDirectory | nameTooLong | notText
deriving DecidableEq, Repr, Inhabited

namespace FileError

/-- The wording of the operating system. -/
def message : FileError → String
  | zeroInPath => "file name contained an unexpected NUL byte"
  | notFound => "No such file or directory (os error 2)"
  | notDirectory => "Not a directory (os error 20)"
  | isDirectory => "Is a directory (os error 21)"
  | nameTooLong => "File name too long (os error 36)"
  | notText => "stream did not contain valid UTF-8"

end FileError

structure Environment where
  /-- Variables of the process. -/
  processVariables : List (String × String) := []
  /-- Contents of files, by name. -/
  files : List (String × ByteArray) := []

namespace Environment

/-! ### Variables -/

/-- What one variable defines: a key means what follows it and an equals sign in the entry. A key
with an equals sign of its own reaches into the value; an empty key means nothing. -/
def definitionsOf (name value : String) : List (String × String) :=
  ((Text.cuts '=' (name ++ "=" ++ value).toList).filter fun cut => !cut.1.isEmpty).map
    fun (key, rest) => (String.ofList key, String.ofList rest)

/-- What the variables of the process define, first to last. -/
def definitions (env : Environment) : List (String × String) :=
  env.processVariables.flatMap fun (name, value) => definitionsOf name value

/-! ### Files -/

/-- Where a path leads. -/
inductive Place where
  | workingDirectory
  /-- A directory around the working directory. -/
  | outerDirectory
  | file (bytes : ByteArray)

/-- How many bytes a name in a directory can have. -/
def longestName : Nat := 255

/-- How many bytes a path can have. -/
def longestPath : Nat := 4095

/-- Whether a step of a path stays where it is. -/
def isIdleStep (step : String) : Bool := step = "" || step = "."

/-- Enters a name of a directory. -/
def enter (env : Environment) (directory : Place) (name : String) : Except FileError Place :=
  if longestName < Text.byteSize name.toList then .error .nameTooLong
  else
    match directory, Entries.find? name env.files with
    | .workingDirectory, some bytes => .ok (.file bytes)
    | _, _ => .error .notFound

/-- Takes one step of a path. No step leads on from a file. -/
def follow (env : Environment) : Place → String → Except FileError Place
  | .file _, _ => .error .notDirectory
  | directory, step =>
    if isIdleStep step then .ok directory
    else if step = ".." then .ok .outerDirectory
    else env.enter directory step

/-- Where the steps of a path lead; a path that starts with a slash does not start in the working
directory. -/
def locate (env : Environment) (path : String) : Except FileError Place :=
  ((Text.pieces '/' path.toList).map String.ofList).foldlM env.follow
    (if path.toList.head? = some '/' then .outerDirectory else .workingDirectory)

/-- The contents of the file at a path, which is the path that the file is listed under or leads
there from the working directory. -/
def contents (env : Environment) (path : String) : Except FileError ByteArray :=
  match Entries.find? path env.files with
  | some bytes => .ok bytes
  | none =>
    if path.toList.contains '\x00' then .error .zeroInPath
    else if path = "" then .error .notFound
    else if longestPath < Text.byteSize path.toList then .error .nameTooLong
    else
      match env.locate path with
      | .ok (.file bytes) => .ok bytes
      | .ok _ => .error .isDirectory
      | .error problem => .error problem

/-- The text of the file at a path. -/
def readText (env : Environment) (path : String) : Except FileError String :=
  match env.contents path with
  | .ok bytes =>
    match String.fromUTF8? bytes with
    | some text => .ok text
    | none => .error .notText
  | .error problem => .error problem

end Environment
end LogConfig
