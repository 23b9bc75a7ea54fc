import LogConfig.Text.Blank

/-
  Severity levels of loggers, from the most to the least verbose.
-/

namespace LogConfig

inductive Level where
  | all | trace | debug | info | warn | error | off
deriving DecidableEq, Repr, Inhabited

namespace Level

/-- The levels in ascending order. -/
def ascending : List Level := [all, trace, debug, info, warn, error, off]

/-- The token that denotes a level. -/
def token : Level → String
  | all => "ALL"
  | trace => "TRACE"
  | debug => "DEBUG"
  | info => "INFO"
  | warn => "WARN"
  | error => "ERROR"
  | off => "OFF"

/-- Place of a level in the ascending order. -/
def rank : Level → Nat
  | all => 0
  | trace => 1
  | debug => 2
  | info => 3
  | warn => 4
  | error => 5
  | off => 6

/-- Reads a level token in any case, with blanks around it. -/
def parse? (text : String) : Option Level :=
  ascending.find? fun level => Text.eqIgnoringCase level.token (Text.trim text)

/-- Tokens that ask a logger to take its level from its ancestors. -/
def inheritedTokens : List String := ["INHERITED", "NULL"]

/-- Whether a text is one of the tokens for an inherited level. -/
def isInheritedToken (text : String) : Bool :=
  inheritedTokens.any fun candidate => Text.eqIgnoringCase candidate (Text.trim text)

/-- What is said of a text that denotes no level. -/
def unknownMessage (text : String) : String := "Unknown level '" ++ text ++ "'"

end Level
end LogConfig
