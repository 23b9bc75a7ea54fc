import LogConfig.Proofs.Dispatch.Rules

/-
  What names resolve to over time. Once a name was resolved its answer is settled: whatever is
  resolved in between, it gets the same instance again, or fails again (`Settled.kept`). The order
  in which names are resolved shows in nothing but the numbers of the instances made on the way
  (`unnumbered_offer?_resolve`).
-/

namespace LogConfig

/-- An action without the number that tells its instances apart. -/
def Action.unnumbered (a : Action) : Action := { a with instanceId := 0 }

namespace ActionRegistry

/-- The action that a name resolves to, if it can be resolved. -/
def offer? (reg : ActionRegistry) (name : String) : Option Action := (reg.resolve name).2.toOption

/-- What the name resolves to is there already. -/
def Settled (reg : ActionRegistry) (name : String) : Prop :=
  Entries.find? (Text.trim name) reg.instances = reg.offer? name

/-- The three outcomes of resolving a name: its instance, a new instance, a failure. -/
inductive Resolution (reg : ActionRegistry) (name : String) : Prop where
  | known (a : Action) : Entries.find? (Text.trim name) reg.instances = some a →
    reg.resolve name = (reg, .ok a) → Resolution reg name
  | made (template : Action) : Entries.find? (Text.trim name) reg.instances = none →
    Entries.find? (Text.trim name) reg.templates = some template →
    reg.resolve name = ({ (reg.instantiate template).1 with
      instances := Entries.insert (Text.trim name) (reg.instantiate template).2 reg.instances },
      .ok (reg.instantiate template).2) → Resolution reg name
  | unknown (e : ConfigError) : Entries.find? (Text.trim name) reg.instances = none →
    Entries.find? (Text.trim name) reg.templates = none →
    reg.resolve name = (reg, .error e) → Resolution reg name

variable {reg : ActionRegistry} {name : String}

theorem resolution (reg : ActionRegistry) (name : String) : reg.Resolution name := by
  cases hi : Entries.find? (Text.trim name) reg.instances with
  | some a => exact .known a hi (by simp only [resolve, hi])
  | none =>
    cases ht : Entries.find? (Text.trim name) reg.templates with
    | some template => exact .made template hi ht (by simp only [resolve, hi, ht, instantiate])
    | none =>
      have hresolve : reg.resolve name = (reg, .error (.instantiation (Text.trim name)
          "no action registered under this name")) := by simp only [resolve, hi, ht]
      exact .unknown _ hi ht hresolve

/-- A name resolves to its instance, and else to a new one made from its template. -/
theorem offer?_eq (reg : ActionRegistry) (name : String) :
    reg.offer? name = (Entries.find? (Text.trim name) reg.instances).or
      ((Entries.find? (Text.trim name) reg.templates).map fun t => (reg.instantiate t).2) := by
  unfold offer?
  cases reg.resolution name with
  | known a hi hresolve => rw [hresolve, hi]; rfl
  | made template hi ht hresolve => rw [hresolve, hi, ht]; rfl
  | unknown e hi ht hresolve => rw [hresolve, hi, ht]; rfl

/-- Names that differ in blanks only have the same answer. -/
theorem offer?_congr {other : String} (h : Text.trim name = Text.trim other) :
    reg.offer? name = reg.offer? other := by
  rw [offer?_eq, offer?_eq, h]

theorem templates_resolve (reg : ActionRegistry) (name : String) :
    (reg.resolve name).1.templates = reg.templates := by
  cases reg.resolution name with
  | known a _ hresolve => rw [hresolve]
  | made template _ _ hresolve => rw [hresolve]; rfl
  | unknown e _ _ hresolve => rw [hresolve]

/-- Resolving a name keeps what it resolves to as its instance, and no other instance changes. -/
theorem find?_resolve (reg : ActionRegistry) (name key : String) :
    Entries.find? key (reg.resolve name).1.instances =
      if key = Text.trim name then reg.offer? name else Entries.find? key reg.instances := by
  rw [offer?_eq]
  cases reg.resolution name with
  | known a hi hresolve =>
    rw [hresolve, hi]
    split
    · next hkey => rw [hkey, hi, Option.some_or]
    · rfl
  | made template hi ht hresolve =>
    rw [hresolve, hi, ht]
    exact Entries.find?_insert _ _ _ _
  | unknown e hi ht hresolve =>
    rw [hresolve, hi, ht]
    split
    · next hkey => rw [hkey, hi]; rfl
    · rfl

/-- A name keeps its answer in a registry that keeps it as an instance. -/
theorem offer?_of_find? {later : ActionRegistry} (htemplates : later.templates = reg.templates)
    (hkept : Entries.find? (Text.trim name) later.instances = reg.offer? name) :
    later.offer? name = reg.offer? name := by
  rw [offer?_eq later, hkept, htemplates]
  cases ho : reg.offer? name with
  | some a => rfl
  | none =>
    rw [offer?_eq, Option.or_eq_none_iff, Option.map_eq_none_iff] at ho
    rw [ho.2]
    rfl

/-- A name that is resolved again has the same answer. -/
theorem offer?_resolve_self (reg : ActionRegistry) (name : String) :
    (reg.resolve name).1.offer? name = reg.offer? name :=
  offer?_of_find? (templates_resolve reg name) (by rw [find?_resolve, if_pos rfl])

theorem settled_resolve (reg : ActionRegistry) (name : String) :
    (reg.resolve name).1.Settled name := by
  rw [Settled, find?_resolve, if_pos rfl, offer?_resolve_self]

/-- Resolving a settled name changes nothing. -/
theorem Settled.resolve_eq (h : reg.Settled name) : (reg.resolve name).1 = reg := by
  rw [Settled, offer?_eq] at h
  cases reg.resolution name with
  | known a _ hresolve => rw [hresolve]
  | made template hi ht hresolve =>
    rw [hi, ht] at h
    cases h
  | unknown e _ _ hresolve => rw [hresolve]

/-- A settled name keeps its answer when others are resolved. -/
theorem Settled.kept (h : reg.Settled name) (other : String) :
    (reg.resolve other).1.Settled name ∧ (reg.resolve other).1.offer? name = reg.offer? name := by
  have hkept : Entries.find? (Text.trim name) (reg.resolve other).1.instances =
      reg.offer? name := by
    rw [find?_resolve]
    split
    · next hsame => exact (offer?_congr hsame).symm
    · exact h
  have hoffer := offer?_of_find? (templates_resolve reg other) hkept
  exact ⟨hkept.trans hoffer.symm, hoffer⟩

/-- What a name resolves to depends on no other name, but for the number of a new instance. -/
theorem unnumbered_offer?_resolve (reg : ActionRegistry) (name other : String) :
    ((reg.resolve other).1.offer? name).map Action.unnumbered =
      (reg.offer? name).map Action.unnumbered := by
  by_cases hsame : Text.trim name = Text.trim other
  · rw [offer?_congr hsame, offer?_congr hsame, offer?_resolve_self]
  · rw [offer?_eq, offer?_eq, find?_resolve, if_neg hsame, templates_resolve]
    cases Entries.find? (Text.trim name) reg.instances with
    | some a => rfl
    | none => rw [Option.none_or, Option.none_or, Option.map_map, Option.map_map]; rfl

end ActionRegistry
end LogConfig
