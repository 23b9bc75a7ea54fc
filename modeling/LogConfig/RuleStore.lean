import LogConfig.ActionRegistry

/-
  The rules that bind actions to elements. For a path the rule of exactly that path counts, and
  else the wildcard rule that covers the most names at its end. Rules can name their actions,
  which are then resolved through a registry.
-/

namespace LogConfig

structure RuleStore where
  /-- The actions bound to each pattern, in the order in which they were bound. -/
  rules : List (ElementPath × List Action) := []
  registry : ActionRegistry := {}

namespace RuleStore

/-- Adds an action to those of a pattern. -/
def bind (pattern : ElementPath) (a : Action) :
    List (ElementPath × List Action) → List (ElementPath × List Action)
  | [] => [(pattern, [a])]
  | (p, actions) :: rest =>
    if p = pattern then (p, actions ++ [a]) :: rest else (p, actions) :: bind pattern a rest

/-- Binds an action to a pattern. -/
def add (store : RuleStore) (pattern : ElementPath) (a : Action) : RuleStore :=
  { store with rules := bind pattern a store.rules }

/-- Binds a new instance of an action to a pattern. -/
def addNew (store : RuleStore) (pattern : ElementPath) (a : Action) : RuleStore :=
  let (registry, a) := store.registry.instantiate a
  { store with registry }.add pattern a

/-- Binds the action of a name to a pattern; an unknown name binds nothing. -/
def addByName (store : RuleStore) (pattern : ElementPath) (name : String) :
    RuleStore × Except ConfigError Unit :=
  match store.registry.resolve name with
  | (registry, .ok a) => ({ store with registry }.add pattern a, .ok ())
  | (registry, .error e) => ({ store with registry }, .error e)

/-- The actions of exactly this pattern. -/
def boundTo? (pattern : ElementPath) : List (ElementPath × List Action) → Option (List Action)
  | [] => none
  | (p, actions) :: rest => if p = pattern then some actions else boundTo? pattern rest

/-- The wildcard rule that covers the most names of a path, and more than `covered`; of several
the first. -/
def widest? (path : ElementPath) (covered : Nat) :
    List (ElementPath × List Action) → Option (List Action)
  | [] => none
  | (p, actions) :: rest =>
    if covered < path.coveredBy p then
      some ((widest? path (path.coveredBy p) rest).getD actions)
    else widest? path covered rest

/-- The actions for an element at a path, if there is a rule for it. -/
def match? (store : RuleStore) (path : ElementPath) : Option (List Action) :=
  match boundTo? path store.rules with
  | some actions => some actions
  | none => widest? path 0 store.rules

/-- The patterns with rules, in the order in which they first came up. -/
def patterns (store : RuleStore) : List ElementPath := store.rules.map Prod.fst

def size (store : RuleStore) : Nat := store.rules.length

/-- The text that describes a store. -/
def describe (store : RuleStore) : String :=
  "\x7b" ++ Text.joined ", " (store.rules.map fun (p, actions) =>
    Text.quoted p.render ++ ": " ++ Text.quotedList (actions.map Action.name)) ++ "\x7d"

end RuleStore
end LogConfig
