import LogConfig.Component.Kind
import LogConfig.Entries
import LogConfig.Error

/-
  Components of classes that an application registers beside the built-in ones. Such a class says
  what it publishes, how it takes values and children, and how it is activated; `storing` classes
  keep all they are given, `refusing` classes take nothing, and neither are activated.
-/

namespace LogConfig

/-- What a component of a registered class holds: values, filled slots and collections by name. -/
structure Fields where
  values : List (String × Value) := []
  slots : List (String × Ref) := []
  collections : List (String × List Ref) := []
deriving DecidableEq, Repr, Inhabited

namespace Fields

def setValue (f : Fields) (name : String) (value : Value) : Fields :=
  { f with values := Entries.insert name value f.values }

def setSlot (f : Fields) (name : String) (child : Ref) : Fields :=
  { f with slots := Entries.insert name child f.slots }

/-- The members of the collection of a name. -/
def members (f : Fields) (name : String) : List Ref :=
  (Entries.find? name f.collections).getD []

def addTo (f : Fields) (name : String) (child : Ref) : Fields :=
  { f with collections := Entries.insert name (f.members name ++ [child]) f.collections }

end Fields

/-- A registered component class. -/
structure CustomClass where
  name : String
  kinds : List ComponentKind
  descriptors : List Descriptor
  setProperty : Fields → String → Value → Except PropertyError Fields
  property? : Fields → String → Option Value
  setComponent : Fields → String → Ref → Except PropertyError Fields
  addComponent : Fields → String → Ref → Except PropertyError Fields
  /-- What activation comes to, for components that have one. -/
  activate : Fields → Option (Except String Fields) := fun _ => none

namespace CustomClass

/-- A class that takes no values and no children. -/
def refusing (name : String) (kinds : List ComponentKind) : CustomClass where
  name := name
  kinds := kinds
  descriptors := []
  setProperty _ property _ := .error (.notFound property name)
  property? _ _ := none
  setComponent _ slot _ := .error (.notFound slot name)
  addComponent _ collection _ := .error (.notFound collection name)

/-- A class that keeps every child, and every value to which `objection` has nothing to say. -/
def storing (name : String) (kinds : List ComponentKind) (descriptors : List Descriptor)
    (objection : String → Value → Option String) : CustomClass where
  name := name
  kinds := kinds
  descriptors := descriptors
  setProperty f property value :=
    match objection property value with
    | some reason => .error (.rejected property reason)
    | none => .ok (f.setValue property value)
  property? f property := Entries.find? property f.values
  setComponent f slot child := .ok (f.setSlot slot child)
  addComponent f collection child := .ok (f.addTo collection child)

end CustomClass

/-- A component of a registered class. -/
structure Custom where
  type : CustomClass
  fields : Fields := {}

end LogConfig
