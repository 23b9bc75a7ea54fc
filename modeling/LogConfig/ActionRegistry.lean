import LogConfig.Action

/-
  The actions that a rule can name. Each name has a pattern after which an instance is made the
  first time the name is resolved; later resolutions of the name give the same instance, until
  the name is registered again.
-/

namespace LogConfig

structure ActionRegistry where
  templates : List (String × Action) := []
  /-- The instances made so far, by name. -/
  instances : List (String × Action) := []
  /-- The number that the next instance gets. -/
  nextId : Nat := 0

namespace ActionRegistry

def empty : ActionRegistry := {}

/-- A new instance of an action. -/
def instantiate (reg : ActionRegistry) (a : Action) : ActionRegistry × Action :=
  ({ reg with nextId := reg.nextId + 1 }, { a with instanceId := reg.nextId })

/-- Registers an action under a name, in place of one of the same name and of its instance. -/
def register (reg : ActionRegistry) (name : String) (a : Action) : ActionRegistry :=
  { reg with
    templates := Entries.insert name a reg.templates
    instances := Entries.erase name reg.instances }

def contains (reg : ActionRegistry) (name : String) : Bool :=
  Entries.contains (Text.trim name) reg.templates

/-- The registered names in ascending order. -/
def names (reg : ActionRegistry) : List String :=
  (Entries.keys reg.templates).mergeSort fun a b => decide (a ≤ b)

/-- How many names have an instance. -/
def cachedCount (reg : ActionRegistry) : Nat := reg.instances.length

/-- The instance of a name, made when there is none yet. -/
def resolve (reg : ActionRegistry) (name : String) : ActionRegistry × Except ConfigError Action :=
  let key := Text.trim name
  match Entries.find? key reg.instances with
  | some a => (reg, .ok a)
  | none =>
    match Entries.find? key reg.templates with
    | some template =>
      let (counted, a) := reg.instantiate template
      ({ counted with instances := Entries.insert key a counted.instances }, .ok a)
    | none => (reg, .error (.instantiation key "no action registered under this name"))

/-- The text that describes a registry. -/
def describe (reg : ActionRegistry) : String :=
  "ActionRegistry \x7b classes: " ++ Text.quotedList reg.names ++ ", cached: " ++
    Text.decimal reg.cachedCount ++ " \x7d"

end ActionRegistry
end LogConfig
