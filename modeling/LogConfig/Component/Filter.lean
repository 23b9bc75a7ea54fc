import LogConfig.Component.Kind
import LogConfig.Error

/-
  Filters that decide on an event by its level. A filter that is not active decides nothing.
-/

namespace LogConfig

/-- The outcome of a filter: take the event, drop it, or leave it to the next filter. -/
inductive FilterReply where
  | accept | deny | neutral
deriving DecidableEq, Repr, Inhabited

namespace FilterReply

def token : FilterReply → String
  | accept => "ACCEPT"
  | deny => "DENY"
  | neutral => "NEUTRAL"

def all : List FilterReply := [accept, deny, neutral]

/-- The tokens of the replies, as an enumeration lists them. -/
def tokens : List String := all.map token

def ofToken? (text : String) : Option FilterReply := all.find? fun reply => reply.token = text

end FilterReply

/-- Denies the events below a level. -/
structure ThresholdFilter where
  level : Option Level := none
  active : Bool := false
deriving DecidableEq, Repr, Inhabited

namespace ThresholdFilter

def className : String := "ThresholdFilter"

def descriptors : List Descriptor := [⟨"level", .basic .level⟩]

def decision (f : ThresholdFilter) (level : Level) : FilterReply :=
  match f.level with
  | some limit => if f.active && level.rank < limit.rank then .deny else .neutral
  | none => .neutral

def setProperty (f : ThresholdFilter) (name : String) (value : Value) :
    Except PropertyError ThresholdFilter :=
  if name = "level" then
    match value with
    | .level level => .ok { f with level := some level }
    | _ => .error (.rejected name (unexpectedValue value))
  else .error (.notFound name className)

def property? (f : ThresholdFilter) (name : String) : Option Value :=
  if name = "level" then f.level.map .level else none

def activate (f : ThresholdFilter) : Except String ThresholdFilter :=
  match f.level with
  | some _ => .ok { f with active := true }
  | none => .error "No level set for ThresholdFilter"

end ThresholdFilter

/-- Tells the events of one level from all others. -/
structure LevelFilter where
  level : Option Level := none
  onMatch : FilterReply := .neutral
  onMismatch : FilterReply := .neutral
  active : Bool := false
deriving DecidableEq, Repr, Inhabited

namespace LevelFilter

def className : String := "LevelFilter"

def descriptors : List Descriptor :=
  [⟨"level", .basic .level⟩, ⟨"onMatch", .basic (.enumeration FilterReply.tokens)⟩,
   ⟨"onMismatch", .basic (.enumeration FilterReply.tokens)⟩]

def decision (f : LevelFilter) (level : Level) : FilterReply :=
  if f.active then if f.level = some level then f.onMatch else f.onMismatch
  else .neutral

/-- The reply a value denotes. -/
def reply? : Value → Option FilterReply
  | .enumeration token => FilterReply.ofToken? token
  | _ => none

def setProperty (f : LevelFilter) (name : String) (value : Value) :
    Except PropertyError LevelFilter :=
  let unexpected := .error (.rejected name (unexpectedValue value))
  if name = "level" then
    match value with
    | .level level => .ok { f with level := some level }
    | _ => unexpected
  else if name = "onMatch" then
    match reply? value with
    | some reply => .ok { f with onMatch := reply }
    | none => unexpected
  else if name = "onMismatch" then
    match reply? value with
    | some reply => .ok { f with onMismatch := reply }
    | none => unexpected
  else .error (.notFound name className)

def property? (f : LevelFilter) (name : String) : Option Value :=
  if name = "level" then f.level.map .level
  else if name = "onMatch" then some (.enumeration f.onMatch.token)
  else if name = "onMismatch" then some (.enumeration f.onMismatch.token)
  else none

def activate (f : LevelFilter) : Except String LevelFilter :=
  match f.level with
  | some _ => .ok { f with active := true }
  | none => .error "No level set for LevelFilter"

end LevelFilter
end LogConfig
