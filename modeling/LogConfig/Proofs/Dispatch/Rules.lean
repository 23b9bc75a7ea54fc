import LogConfig.Actions

/-
  Properties that all actions of a rule store share. A property of actions that does not depend on
  the number of an instance passes from the templates of the registry to everything that a
  document can ever bind (`RuleStore.All.addByName`), so what holds of the built-in actions holds
  of the rules of every session (`all_defaultStore`).
-/

namespace LogConfig

theorem Entries.mem_insert {α : Type} {key : String} {value : α} {table : List (String × α)}
    {entry : String × α} (h : entry ∈ insert key value table) :
    entry = (key, value) ∨ entry ∈ table := by
  induction table with
  | nil => exact .inl (List.mem_singleton.1 h)
  | cons first rest ih =>
    obtain ⟨k, v⟩ := first
    unfold insert at h
    split at h
    · rcases List.mem_cons.1 h with rfl | h
      · exact .inl rfl
      · exact .inr (List.mem_cons_of_mem _ h)
    · rcases List.mem_cons.1 h with rfl | h
      · exact .inr List.mem_cons_self
      · rcases ih h with h | h
        · exact .inl h
        · exact .inr (List.mem_cons_of_mem _ h)

theorem Entries.mem_of_find? {α : Type} {key : String} {value : α} {table : List (String × α)}
    (h : find? key table = some value) : (key, value) ∈ table := by
  induction table with
  | nil => cases h
  | cons first rest ih =>
    obtain ⟨k, v⟩ := first
    unfold find? at h
    split at h
    · next hk =>
      cases h
      rw [hk]
      exact List.mem_cons_self
    · exact List.mem_cons_of_mem _ (ih h)

variable {P : Action → Prop}

/-- Every action that a registry can give has the property. -/
structure ActionRegistry.All (P : Action → Prop) (reg : ActionRegistry) : Prop where
  templates : ∀ entry ∈ reg.templates, P entry.2
  instances : ∀ entry ∈ reg.instances, P entry.2

/-- Every action that is bound or can be bound has the property. -/
structure RuleStore.All (P : Action → Prop) (store : RuleStore) : Prop where
  bound : ∀ rule ∈ store.rules, ∀ a ∈ rule.2, P a
  registry : store.registry.All P

/-- The property does not depend on the number of an instance. -/
def OfEveryInstance (P : Action → Prop) : Prop := ∀ a n, P a → P { a with instanceId := n }

/-! ### Registries -/

theorem ActionRegistry.all_empty : ActionRegistry.empty.All P := ⟨by simp [empty], by simp [empty]⟩

theorem ActionRegistry.All.register {reg : ActionRegistry} (h : reg.All P) {a : Action} (ha : P a)
    (name : String) : (reg.register name a).All P := by
  refine ⟨fun entry hentry => ?_, fun entry hentry => ?_⟩
  · rcases Entries.mem_insert hentry with rfl | hentry
    · exact ha
    · exact h.templates entry hentry
  · exact h.instances entry (List.mem_filter.1 hentry).1

/-- What a name resolves to has the property, and so has all the registry gives later. -/
theorem ActionRegistry.All.resolve (hP : OfEveryInstance P) {reg : ActionRegistry} (h : reg.All P)
    (name : String) :
    (reg.resolve name).1.All P ∧ ∀ a, (reg.resolve name).2 = .ok a → P a := by
  unfold ActionRegistry.resolve
  dsimp only
  cases hi : Entries.find? (Text.trim name) reg.instances with
  | some a =>
    refine ⟨h, fun b hb => ?_⟩
    cases hb
    exact h.instances _ (Entries.mem_of_find? hi)
  | none =>
    cases ht : Entries.find? (Text.trim name) reg.templates with
    | none => exact ⟨h, fun b hb => by cases hb⟩
    | some template =>
      have made := hP template reg.nextId (h.templates _ (Entries.mem_of_find? ht))
      refine ⟨⟨h.templates, fun entry hentry => ?_⟩, fun b hb => ?_⟩
      · rcases Entries.mem_insert hentry with rfl | hentry
        · exact made
        · exact h.instances entry hentry
      · cases hb
        exact made

/-! ### Rule stores -/

theorem RuleStore.mem_bind {pattern : ElementPath} {a : Action}
    {rules : List (ElementPath × List Action)} {rule : ElementPath × List Action}
    (h : rule ∈ bind pattern a rules) :
    ∀ b ∈ rule.2, b = a ∨ ∃ old ∈ rules, b ∈ old.2 := by
  induction rules with
  | nil =>
    intro b hb
    rw [List.mem_singleton.1 h] at hb
    exact .inl (List.mem_singleton.1 hb)
  | cons first rest ih =>
    obtain ⟨p, actions⟩ := first
    intro b hb
    unfold bind at h
    split at h
    · rcases List.mem_cons.1 h with rfl | h
      · rcases List.mem_append.1 hb with hb | hb
        · exact .inr ⟨_, List.mem_cons_self, hb⟩
        · exact .inl (List.mem_singleton.1 hb)
      · exact .inr ⟨rule, List.mem_cons_of_mem _ h, hb⟩
    · rcases List.mem_cons.1 h with rfl | h
      · exact .inr ⟨_, List.mem_cons_self, hb⟩
      · rcases ih h b hb with hb | ⟨old, hold, hb⟩
        · exact .inl hb
        · exact .inr ⟨old, List.mem_cons_of_mem _ hold, hb⟩

theorem RuleStore.All.add {store : RuleStore} (h : store.All P) {a : Action} (ha : P a)
    (pattern : ElementPath) : (store.add pattern a).All P := by
  refine ⟨fun rule hrule b hb => ?_, h.registry⟩
  rcases mem_bind hrule b hb with rfl | ⟨old, hold, hb⟩
  · exact ha
  · exact h.bound old hold b hb

theorem RuleStore.All.addNew (hP : OfEveryInstance P) {store : RuleStore} (h : store.All P)
    {a : Action} (ha : P a) (pattern : ElementPath) : (store.addNew pattern a).All P := by
  have counted : { store with registry := (store.registry.instantiate a).1 }.All P :=
    ⟨h.bound, h.registry.templates, h.registry.instances⟩
  exact counted.add (hP a _ ha) pattern

/-- A rule asked for by the name of its action binds an action with the property, or none. -/
theorem RuleStore.All.addByName (hP : OfEveryInstance P) {store : RuleStore} (h : store.All P)
    (pattern : ElementPath) (name : String) : (store.addByName pattern name).1.All P := by
  obtain ⟨hreg, hok⟩ := h.registry.resolve hP name
  unfold RuleStore.addByName
  rcases hr : store.registry.resolve name with ⟨registry, e | a⟩
  · rw [hr] at hreg
    exact ⟨h.bound, hreg⟩
  · rw [hr] at hreg hok
    have resolved : { store with registry }.All P := ⟨h.bound, hreg⟩
    exact resolved.add (hok a rfl) pattern

theorem RuleStore.mem_of_boundTo? {path : ElementPath} {rules : List (ElementPath × List Action)}
    {actions : List Action} (h : boundTo? path rules = some actions) : (path, actions) ∈ rules := by
  induction rules with
  | nil => cases h
  | cons first rest ih =>
    obtain ⟨p, bound⟩ := first
    unfold boundTo? at h
    split at h
    · next hp =>
      cases h
      rw [hp]
      exact List.mem_cons_self
    · exact List.mem_cons_of_mem _ (ih h)

theorem RuleStore.mem_of_widest? {path : ElementPath} {covered : Nat}
    {rules : List (ElementPath × List Action)} {actions : List Action}
    (h : widest? path covered rules = some actions) :
    ∃ pattern, (pattern, actions) ∈ rules ∧ 0 < path.coveredBy pattern := by
  induction rules generalizing covered with
  | nil => cases h
  | cons first rest ih =>
    obtain ⟨p, bound⟩ := first
    have later : ∀ {n : Nat}, widest? path n rest = some actions →
        ∃ pattern, (pattern, actions) ∈ (p, bound) :: rest ∧ 0 < path.coveredBy pattern := by
      intro n hn
      obtain ⟨pattern, hmem, hcovers⟩ := ih hn
      exact ⟨pattern, List.mem_cons_of_mem _ hmem, hcovers⟩
    unfold widest? at h
    split at h
    · next hcovers =>
      cases hw : widest? path (path.coveredBy p) rest with
      | none =>
        rw [hw] at h
        cases h
        exact ⟨p, List.mem_cons_self, Nat.zero_lt_of_lt hcovers⟩
      | some found =>
        rw [hw] at h
        cases h
        exact later hw
    · exact later h

/-- The actions for an element are those of one rule, of its path or of one that covers it. -/
theorem RuleStore.mem_of_match? {store : RuleStore} {path : ElementPath} {actions : List Action}
    (h : store.match? path = some actions) :
    ∃ pattern, (pattern, actions) ∈ store.rules ∧ (pattern = path ∨ 0 < path.coveredBy pattern) := by
  unfold RuleStore.match? at h
  split at h
  · next bound hb =>
    cases h
    exact ⟨path, mem_of_boundTo? hb, .inl rfl⟩
  · obtain ⟨pattern, hmem, hcovers⟩ := mem_of_widest? h
    exact ⟨pattern, hmem, .inr hcovers⟩

/-- The actions for an element have the property. -/
theorem RuleStore.All.match? {store : RuleStore} (h : store.All P) {path : ElementPath}
    {actions : List Action} (hm : store.match? path = some actions) : ∀ a ∈ actions, P a := by
  obtain ⟨pattern, hmem, -⟩ := mem_of_match? hm
  exact h.bound _ hmem

/-! ### The rules of a session -/

namespace Actions

theorem all_registry (h : ∀ entry ∈ builtins, P entry.1) : registry.All P := by
  unfold registry
  refine List.foldlRecOn builtins _ ActionRegistry.all_empty fun reg hreg entry hentry => ?_
  exact List.foldlRecOn _ _ hreg fun reg hreg name _ => hreg.register (h entry hentry) name

/-- The actions of the default rules are built in. -/
theorem defaultRules_builtin : ∀ rule ∈ defaultRules, rule.2 ∈ builtins.map Prod.fst := by
  unfold defaultRules
  simp only [List.forall_mem_cons, List.not_mem_nil, false_imp_iff, implies_true, and_true]
  simp [builtins]

/-- What holds of the built-in actions holds of the rules that every session starts with. -/
theorem all_defaultStore (hP : OfEveryInstance P) (h : ∀ entry ∈ builtins, P entry.1)
    {reg : ActionRegistry} (hreg : reg.All P) : (defaultStore reg).All P := by
  have start : RuleStore.All P { registry := reg } :=
    ⟨fun rule hrule => absurd hrule List.not_mem_nil, hreg⟩
  unfold defaultStore
  refine List.foldlRecOn defaultRules _ start fun store hstore rule hrule => ?_
  refine hstore.addNew hP ?_ _
  obtain ⟨entry, hentry, he⟩ := List.mem_map.1 (defaultRules_builtin rule hrule)
  rw [← he]
  exact h entry hentry

end Actions
end LogConfig
