import LogConfig.Diagnostic

/-
  Why a part of a configuration could not be applied. Each failure is a cause with its data; the
  wording is in one `message` function per type, and `ConfigError.code` gives the code under
  which a failure is reported.
-/

namespace LogConfig

/-- Why a property of a component could not be set. -/
inductive PropertyError where
  | notFound (name className : String)
  | conversion (name value target : String)
  | unsupportedType (name typeName : String)
  | typeMismatch (name expected actual : String)
  | rejected (name reason : String)
deriving DecidableEq, Repr, Inhabited

/-- Why a text with variable references could not be expanded. A reference that is not closed is
given by the text and the number of bytes before it, a circle by the chain of its references. -/
inductive SubstitutionError where
  | unterminated (text : String) (offset : Nat)
  | circular (chain : String)
deriving DecidableEq, Repr, Inhabited

/-- Why an element of a configuration could not be applied. -/
inductive ConfigError where
  | missingAttribute (element wanted : String)
  | invalidAttributes (element reason : String)
  | unresolvedReference (name reason : String)
  | instantiation (className reason : String)
  | wrongSupertype (className expected : String)
  | property (e : PropertyError)
  | substitution (e : SubstitutionError)
  | unexpectedObject (reason : String)
  | activation (className reason : String)
  | io (path reason : String)
  | other (reason : String)
deriving DecidableEq, Repr, Inhabited

/-- Why a phase of an action did not end normally: it asks for the children or the remaining
siblings of the element to be skipped, or it failed. -/
inductive Signal where
  | skipChildren
  | skipSiblings
  | failed (e : ConfigError)
deriving DecidableEq, Repr, Inhabited

namespace PropertyError

def message : PropertyError → String
  | notFound name className => "No such property '" ++ name ++ "' in class " ++ className
  | conversion name value target =>
    "Failed to convert value '" ++ value ++ "' to " ++ target ++ " for property '" ++ name ++ "'"
  | unsupportedType name typeName =>
    "Property '" ++ name ++ "' of type " ++ typeName ++ " cannot be set from a string"
  | typeMismatch name expected actual =>
    "Component of class " ++ actual ++ " is not assignable to '" ++ name ++ "' (expects " ++
      expected ++ ")"
  | rejected name reason => "Property '" ++ name ++ "' rejected the value: " ++ reason

end PropertyError

namespace SubstitutionError

/-- A variable reference to a key. -/
def reference (key : String) : String := "$\x7b" ++ key ++ "\x7d"

/-- The circle that closes when the last of these keys, in expansion order, is met again. -/
def circle (keys : List String) : SubstitutionError :=
  circular (" --> ".intercalate (keys.map reference))

def message : SubstitutionError → String
  | unterminated text offset =>
    "Unterminated variable reference at offset " ++ Text.decimal offset ++ " in \"" ++ text ++ "\""
  | circular chain => "Circular variable reference detected: " ++ chain

end SubstitutionError

namespace ConfigError

def message : ConfigError → String
  | missingAttribute element wanted =>
    "Missing required attribute '" ++ wanted ++ "' on element [" ++ element ++ "]"
  | invalidAttributes element reason =>
    "Invalid attributes on element [" ++ element ++ "]: " ++ reason
  | unresolvedReference name reason => "Could not resolve '" ++ name ++ "': " ++ reason
  | instantiation className reason =>
    "Could not instantiate class '" ++ className ++ "': " ++ reason
  | wrongSupertype className expected => "Class '" ++ className ++ "' is not a " ++ expected
  | property e => e.message
  | substitution e => e.message
  | unexpectedObject reason => "Unexpected object on the execution stack: " ++ reason
  | activation className reason =>
    "Activation of component '" ++ className ++ "' failed: " ++ reason
  | io path reason => "I/O error on '" ++ path ++ "': " ++ reason
  | other reason => reason

/-- The code under which a failure is reported. -/
def code : ConfigError → DiagnosticCode
  | missingAttribute .. => .missingAttribute
  | invalidAttributes .. => .invalidAttributes
  | unresolvedReference .. => .unresolvedReference
  | instantiation .. => .instantiation
  | wrongSupertype .. => .instantiation
  | property _ => .property
  | substitution _ => .substitution
  | unexpectedObject _ => .stackDiscipline
  | activation .. => .activation
  | io .. => .io
  | other _ => .custom "configuration"

end ConfigError

namespace Signal

def message : Signal → String
  | skipChildren => "skip children of the current element"
  | skipSiblings => "skip remaining siblings of the current element"
  | failed e => e.message

end Signal
end LogConfig
