import LogConfig.Value

/-
  Kinds of components and the properties a component type publishes: values that are set from a
  text, slots that hold one component of a kind, and collections that hold any number of them.
-/

namespace LogConfig

/-- What a component can serve as. -/
inductive ComponentKind where
  | context | logger | appender | encoder | layout | filter | other
deriving DecidableEq, Repr, Inhabited

namespace ComponentKind

/-- The name of a kind in messages. -/
def name : ComponentKind → String
  | context => "Context"
  | logger => "Logger"
  | appender => "Appender"
  | encoder => "Encoder"
  | layout => "Layout"
  | filter => "Filter"
  | other => "Object"

end ComponentKind

/-- What a published property accepts. -/
inductive PropertyKind where
  | basic (type : ValueType)
  | slot (kind : ComponentKind)
  | collection (kind : ComponentKind)
deriving DecidableEq, Repr, Inhabited

/-- A property that a component type publishes. -/
structure Descriptor where
  name : String
  kind : PropertyKind
deriving DecidableEq, Repr, Inhabited

/-- The handle of a component in a graph; two handles are the same component when equal. -/
structure Ref where
  index : Nat
deriving DecidableEq, Repr, Inhabited

/-- What is said of a value that is not of a property's shape. -/
def unexpectedValue (value : Value) : String := "unexpected value '" ++ value.display ++ "'"

end LogConfig
