import LogConfig.CommandLine

/-
  The command as a program: it runs with the variables of its process and the files of its working
  directory, and the file it is asked for wherever that is.
-/

namespace LogConfig.CommandLine

/-- The variable that an entry of the process environment sets: its name ends at the first equals
sign. An entry that is not a text sets none. -/
def variableOf? (bytes : List UInt8) : Option (String × String) :=
  (String.fromUTF8? ⟨bytes.toArray⟩).bind fun text =>
    match text.toList.dropWhile (· ≠ '=') with
    | [] => none
    | _ :: value => some (String.ofList (text.toList.takeWhile (· ≠ '=')), String.ofList value)

/-- The variables of a process environment, whose entries end in a zero byte. -/
def variablesOf (bytes : ByteArray) : List (String × String) :=
  (bytes.toList.splitOn 0).filterMap variableOf?

/-- The contents of a file, where it can be read. -/
def fileAt (path : String) : IO (Option (String × ByteArray)) := do
  try
    pure (some (path, ← IO.FS.readBinFile path))
  catch _ =>
    pure none

/-- Whether a directory entry is a plain file, or leads to one. -/
def isPlainFile (entry : IO.FS.DirEntry) : IO Bool := do
  try
    pure ((← entry.path.metadata).type == .file)
  catch _ =>
    pure false

/-- The files of the working directory. -/
def workingFiles : IO (List (String × ByteArray)) := do
  let plain ← (← (← IO.currentDir).readDir).toList.filterM isPlainFile
  plain.filterMapM fun entry => fileAt entry.fileName

/-- What the process finds around it. -/
def surroundings (args : List String) : IO Environment := do
  let listed ← fileAt "/proc/self/environ"
  let named ← args.filterMapM fileAt
  pure
    { processVariables := (listed.map fun (_, bytes) => variablesOf bytes).getD []
      files := named ++ (← workingFiles) }

end LogConfig.CommandLine

def main (args : List String) : IO UInt32 := do
  let outcome := LogConfig.CommandLine.run (← LogConfig.CommandLine.surroundings args) args
  IO.print outcome.output
  pure outcome.exitCode.toUInt32
