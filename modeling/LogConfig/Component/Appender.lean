import LogConfig.Component.Kind
import LogConfig.Error

/-
  Appenders: the destinations of events. The console and the file appender share a name, an
  encoder, a layout, filters and a flush setting; each checks its settings when it is activated.
-/

namespace LogConfig

/-- What every appender holds. -/
structure AppenderCore where
  name : Option String := none
  encoder : Option Ref := none
  layout : Option Ref := none
  filters : List Ref := []
  immediateFlush : Bool := true
  active : Bool := false
deriving DecidableEq, Repr, Inhabited

namespace AppenderCore

/-- The properties that every appender sets itself; nothing for a property of another name. -/
def setProperty? (a : AppenderCore) (name : String) (value : Value) :
    Option (Except PropertyError AppenderCore) :=
  let unexpected := .error (.rejected name (unexpectedValue value))
  if name = "name" then
    match value with
    | .string text => some (.ok { a with name := some text })
    | _ => some unexpected
  else if name = "immediateFlush" then
    match value with
    | .boolean b => some (.ok { a with immediateFlush := b })
    | _ => some unexpected
  else none

def property? (a : AppenderCore) (name : String) : Option Value :=
  if name = "name" then a.name.map .string
  else if name = "immediateFlush" then some (.boolean a.immediateFlush)
  else none

/-- Fills the slot of a name. -/
def setComponent (owner : String) (a : AppenderCore) (name : String) (child : Ref) :
    Except PropertyError AppenderCore :=
  if name = "encoder" then .ok { a with encoder := some child }
  else if name = "layout" then .ok { a with layout := some child }
  else .error (.notFound name owner)

/-- Adds to the collection of a name. -/
def addComponent (owner : String) (a : AppenderCore) (name : String) (child : Ref) :
    Except PropertyError AppenderCore :=
  if name = "filter" then .ok { a with filters := a.filters ++ [child] }
  else .error (.notFound name owner)

/-- The name in messages, empty for an appender without one. -/
def title (a : AppenderCore) : String := a.name.getD ""

/-- An appender is active once it has an encoder or a layout. -/
def activate (a : AppenderCore) : Except String AppenderCore :=
  if a.encoder.isNone && a.layout.isNone then
    .error ("No encoder set for the appender named [" ++ a.title ++ "]")
  else .ok { a with active := true }

end AppenderCore

/-- Writes to one of the standard streams. -/
structure ConsoleAppender where
  core : AppenderCore := {}
  target : String := "System.out"
deriving DecidableEq, Repr, Inhabited

namespace ConsoleAppender

def className : String := "ConsoleAppender"

/-- The streams a console appender can write to. -/
def targets : List String := ["System.out", "System.err"]

def descriptors : List Descriptor :=
  [⟨"name", .basic .string⟩, ⟨"target", .basic (.enumeration targets)⟩,
   ⟨"immediateFlush", .basic .boolean⟩, ⟨"encoder", .slot .encoder⟩, ⟨"layout", .slot .layout⟩,
   ⟨"filter", .collection .filter⟩]

def setProperty (a : ConsoleAppender) (name : String) (value : Value) :
    Except PropertyError ConsoleAppender :=
  match a.core.setProperty? name value with
  | some (.ok core) => .ok { a with core }
  | some (.error problem) => .error problem
  | none =>
    if name = "target" then
      match value with
      | .enumeration token => .ok { a with target := token }
      | _ => .error (.rejected name (unexpectedValue value))
    else .error (.notFound name className)

def property? (a : ConsoleAppender) (name : String) : Option Value :=
  if name = "target" then some (.enumeration a.target) else a.core.property? name

def activate (a : ConsoleAppender) : Except String ConsoleAppender :=
  match a.core.activate with
  | .ok core => .ok { a with core }
  | .error reason => .error reason

end ConsoleAppender

/-- Writes to a file. -/
structure FileAppender where
  core : AppenderCore := {}
  file : Option String := none
  append : Bool := true
  prudent : Bool := false
  bufferSize : Int32 := 8192
deriving DecidableEq, Repr, Inhabited

namespace FileAppender

def className : String := "FileAppender"

def descriptors : List Descriptor :=
  [⟨"name", .basic .string⟩, ⟨"file", .basic .string⟩, ⟨"append", .basic .boolean⟩,
   ⟨"prudent", .basic .boolean⟩, ⟨"bufferSize", .basic .integer⟩,
   ⟨"immediateFlush", .basic .boolean⟩, ⟨"encoder", .slot .encoder⟩, ⟨"layout", .slot .layout⟩,
   ⟨"filter", .collection .filter⟩]

/-- The properties of a file appender beside those of every appender. -/
def setOwnProperty (a : FileAppender) (name : String) (value : Value) :
    Except PropertyError FileAppender :=
  let unexpected := .error (.rejected name (unexpectedValue value))
  if name = "file" then
    match value with
    | .string text => .ok { a with file := some (Text.trim text) }
    | _ => unexpected
  else if name = "append" then
    match value with
    | .boolean b => .ok { a with append := b }
    | _ => unexpected
  else if name = "prudent" then
    match value with
    | .boolean b => .ok { a with prudent := b }
    | _ => unexpected
  else if name = "bufferSize" then
    match value with
    | .integer n => .ok { a with bufferSize := n }
    | _ => unexpected
  else .error (.notFound name className)

def setProperty (a : FileAppender) (name : String) (value : Value) :
    Except PropertyError FileAppender :=
  match a.core.setProperty? name value with
  | some (.ok core) => .ok { a with core }
  | some (.error problem) => .error problem
  | none => a.setOwnProperty name value

def property? (a : FileAppender) (name : String) : Option Value :=
  if name = "file" then a.file.map .string
  else if name = "append" then some (.boolean a.append)
  else if name = "prudent" then some (.boolean a.prudent)
  else if name = "bufferSize" then some (.integer a.bufferSize)
  else a.core.property? name

/-- A file appender needs a file, may not cut it off in prudent mode, and needs room to buffer. -/
def activate (a : FileAppender) : Except String FileAppender :=
  if a.file.getD "" = "" then
    .error ("\"File\" property not set for appender named [" ++ a.core.title ++ "]")
  else if a.prudent && !a.append then
    .error ("Setting \"append\" to false is incompatible with prudent mode for appender [" ++
      a.core.title ++ "]")
  else if a.bufferSize ≤ 0 then
    .error ("Buffer size must be positive for appender [" ++ a.core.title ++ "]")
  else
    match a.core.activate with
    | .ok core => .ok { a with core }
    | .error reason => .error reason

end FileAppender
end LogConfig
