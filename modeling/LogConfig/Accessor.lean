import LogConfig.Component.PropertyName
import LogConfig.Graph

/-
  Access to the properties of a component by name. The published descriptors decide what a name
  means: a text value for a basic property, a child for a slot or a collection. A collection goes
  before a slot of the same name. Among descriptors of one name the last counts.
-/

namespace LogConfig

/-- How a child of some name is held by its parent. -/
inductive Aggregation where
  | notFound | asProperty | asCollection
deriving DecidableEq, Repr, Inhabited

namespace Descriptor

/-- The last descriptor that satisfies a test. -/
def findLast? (p : Descriptor → Bool) (ds : List Descriptor) : Option Descriptor :=
  ds.reverse.find? p

def isCollection (d : Descriptor) : Bool :=
  match d.kind with
  | .collection _ => true
  | _ => false

/-- The basic property or slot of exactly this name. -/
def single? (ds : List Descriptor) (name : String) : Option Descriptor :=
  findLast? (fun d => !d.isCollection && d.name == name) ds

/-- The collection of a name, the first letters raised. -/
def collection? (ds : List Descriptor) (name : String) : Option Descriptor :=
  findLast? (fun d => d.isCollection &&
    PropertyName.capitalize d.name == PropertyName.capitalize name) ds

end Descriptor

namespace Component

/-- How a child of this name would be held. -/
def aggregation (c : Component) (name : String) : Aggregation :=
  match Descriptor.collection? c.descriptors name with
  | some ⟨_, .collection _⟩ => .asCollection
  | _ =>
    match Descriptor.single? c.descriptors (PropertyName.decapitalize name) with
    | some ⟨_, .slot _⟩ => .asProperty
    | _ => .notFound

/-- The kind that a child of this name must have. -/
def childKind? (c : Component) (name : String) : Option ComponentKind :=
  match Descriptor.collection? c.descriptors name with
  | some ⟨_, .collection kind⟩ => some kind
  | _ =>
    match Descriptor.single? c.descriptors (PropertyName.decapitalize name) with
    | some ⟨_, .slot kind⟩ => some kind
    | _ => none

/-- The type of the basic property of this name. -/
def basicType? (c : Component) (name : String) : Option ValueType :=
  match Descriptor.single? c.descriptors (PropertyName.decapitalize name) with
  | some ⟨_, .basic type⟩ => some type
  | _ => none

/-- Sets the property of a name from a text. -/
def setFromText (c : Component) (name text : String) : Except PropertyError Component :=
  let property := PropertyName.decapitalize name
  match Descriptor.single? c.descriptors property with
  | none => .error (.notFound property c.className)
  | some ⟨_, .slot kind⟩ => .error (.unsupportedType property kind.name)
  | some ⟨_, .collection kind⟩ => .error (.unsupportedType property kind.name)
  | some ⟨_, .basic type⟩ =>
    match Value.coerce type text with
    | .error _ => .error (.conversion property text type.name)
    | .ok value => c.setProperty property value

/-- The value of the property of a name. -/
def valueOf? (c : Component) (name : String) : Option Value :=
  c.property? (PropertyName.decapitalize name)

end Component

namespace Graph

/-- Checks that a child can be held where this kind is wanted. -/
def checkAssignable (g : Graph) (owner : Ref) (name : String) (kind : ComponentKind) (child : Ref) :
    Except PropertyError Unit :=
  if child = owner then .error (.rejected name "a component cannot contain itself")
  else
    match g.get? child with
    | some c =>
      if c.isKind kind then .ok () else .error (.typeMismatch name kind.name c.className)
    | none => .error (.typeMismatch name kind.name "")

/-- Sets the property of a name from a text. -/
def setFromText (g : Graph) (r : Ref) (name text : String) : Except PropertyError Graph :=
  g.update r fun c => c.setFromText name text

/-- Fills the slot of a name. -/
def fillSlot (g : Graph) (r : Ref) (name : String) (child : Ref) : Except PropertyError Graph :=
  g.update r fun c =>
    let property := PropertyName.decapitalize name
    match Descriptor.single? c.descriptors property with
    | some ⟨_, .slot kind⟩ =>
      match g.checkAssignable r property kind child with
      | .ok () => c.setComponent property child
      | .error problem => .error problem
    | _ => .error (.notFound property c.className)

/-- Adds to the collection of a name, under the name it is published by. -/
def addToCollection (g : Graph) (r : Ref) (name : String) (child : Ref) :
    Except PropertyError Graph :=
  g.update r fun c =>
    match Descriptor.collection? c.descriptors name with
    | some ⟨property, .collection kind⟩ =>
      match g.checkAssignable r property kind child with
      | .ok () => c.addComponent property child
      | .error problem => .error problem
    | _ => .error (.notFound (PropertyName.decapitalize name) c.className)

/-- Attaches a child as classified earlier. -/
def attach (g : Graph) (r : Ref) (aggregation : Aggregation) (name : String) (child : Ref) :
    Except PropertyError Graph :=
  match aggregation with
  | .asProperty => g.fillSlot r name child
  | .asCollection => g.addToCollection r name child
  | .notFound => .error (.notFound name (g.className r))

end Graph
end LogConfig
