import LogConfig.Proofs.Lifecycle.Actions

/-
  The default rules, as long as the document adds none. Every rule has one action, and an element
  that a rule covers has the last name of its pattern. So the action for an element is one that
  keeps sessions in order where the element stands, unless the element asks for a new rule.
-/

namespace LogConfig

/-- An element that a wildcard pattern covers ends in the last name of the pattern. -/
theorem ElementPath.last?_of_coveredBy {path pattern : ElementPath}
    (h : 0 < path.coveredBy pattern) : path.last? = pattern.last? := by
  unfold coveredBy at h
  split at h
  · next tail htail =>
    split at h
    · next hsuffix =>
      obtain ⟨before, hbefore⟩ := hsuffix
      obtain ⟨tags⟩ := pattern
      unfold wildcardTail? at htail
      split at htail
      · next star tag rest htags =>
        split at htail
        · cases htail
          cases htags
          unfold last?
          rw [← hbefore, List.getLast?_append, List.getLast?_cons_cons,
            List.getLast?_eq_some_getLast (List.cons_ne_nil tag rest)]
          rfl
        · cases htail
      · cases htail
    · cases h
  · cases h

/-- Only wildcard patterns cover anything. -/
theorem ElementPath.coveredBy_eq_zero {path pattern : ElementPath}
    (h : pattern.isWildcard = false) : path.coveredBy pattern = 0 := by
  unfold coveredBy
  unfold isWildcard at h
  rw [Option.isNone_iff_eq_none.1 (Option.isSome_eq_false_iff.1 h)]

namespace RuleStore

theorem bind_of_notMem {pattern : ElementPath} {a : Action}
    {rules : List (ElementPath × List Action)} (h : pattern ∉ rules.map Prod.fst) :
    bind pattern a rules = rules ++ [(pattern, [a])] := by
  induction rules with
  | nil => rfl
  | cons rule rest ih =>
    obtain ⟨p, actions⟩ := rule
    rw [List.map_cons, List.mem_cons, not_or] at h
    unfold bind
    rw [if_neg fun he => h.1 he.symm, ih h.2]
    rfl

/-- Rules with patterns of their own each have one action. -/
theorem mem_foldl_addNew {entries : List (String × Action)} {store : RuleStore}
    (hdistinct : (store.patterns ++ entries.map fun entry => ElementPath.parse entry.1).Nodup)
    {rule : ElementPath × List Action}
    (h : rule ∈ (entries.foldl (fun store (pattern, a) =>
      store.addNew (ElementPath.parse pattern) a) store).rules) :
    rule ∈ store.rules ∨ ∃ entry ∈ entries, ∃ n,
      rule = (ElementPath.parse entry.1, [{ entry.2 with instanceId := n }]) := by
  induction entries generalizing store with
  | nil => exact .inl h
  | cons entry rest ih =>
    obtain ⟨pattern, a⟩ := entry
    have hrules : (store.addNew (ElementPath.parse pattern) a).rules = store.rules ++
        [(ElementPath.parse pattern, [{ a with instanceId := store.registry.nextId }])] := by
      refine bind_of_notMem fun hmem => ?_
      exact (List.nodup_append.1 hdistinct).2.2 _ hmem _ List.mem_cons_self rfl
    have hpatterns : (store.addNew (ElementPath.parse pattern) a).patterns =
        store.patterns ++ [ElementPath.parse pattern] := by
      unfold patterns
      rw [hrules, List.map_append]
      rfl
    rw [List.foldl_cons] at h
    rcases ih
      (by rw [hpatterns, List.append_assoc]; exact hdistinct) h with h | ⟨entry, hentry, hn⟩
    · rw [hrules] at h
      rcases List.mem_append.1 h with h | h
      · exact .inl h
      · exact .inr ⟨_, List.mem_cons_self, _, List.mem_singleton.1 h⟩
    · exact .inr ⟨entry, List.mem_cons_of_mem _ hentry, hn⟩

end RuleStore

/-- The names of the elements that ask for a new rule. -/
def newRuleNames : List String := ["newRule", "new-rule"]

/-- The store has for every element one action at most, one that keeps sessions in order there.
Elements that ask for a new rule are left out. -/
def RuleStore.Minds (context : Ref) (store : RuleStore) : Prop :=
  ∀ path actions, store.match? path = some actions →
    (∀ name ∈ path.last?, name ∉ newRuleNames) → ∃ a, actions = [a] ∧ a.Minds context path.size

namespace Actions

theorem mem_defaultStore {registry : ActionRegistry} {rule : ElementPath × List Action}
    (h : rule ∈ (defaultStore registry).rules) : ∃ entry ∈ defaultRules, ∃ n,
      rule = (ElementPath.parse entry.1, [{ entry.2 with instanceId := n }]) := by
  have hdistinct : (defaultRules.map fun entry => ElementPath.parse entry.1).Nodup := by
    decide +kernel
  have start : ({ registry } : RuleStore).patterns = [] := rfl
  rcases RuleStore.mem_foldl_addNew (by rw [start]; exact hdistinct) h with h | h
  · exact absurd h List.not_mem_nil
  · exact h

/-- The elements that a default rule is for. -/
def Concerns (pattern : String) (path : ElementPath) : Prop :=
  ElementPath.parse pattern = path ∨ 0 < path.coveredBy (ElementPath.parse pattern)

theorem Concerns.size_eq {pattern : String} {path : ElementPath} (h : Concerns pattern path)
    (hexact : (ElementPath.parse pattern).isWildcard = false) :
    path.size = (ElementPath.parse pattern).size := by
  rcases h with rfl | h
  · rfl
  · rw [ElementPath.coveredBy_eq_zero hexact] at h
    cases h

theorem Concerns.last?_eq {pattern : String} {path : ElementPath} (h : Concerns pattern path) :
    path.last? = (ElementPath.parse pattern).last? := by
  rcases h with rfl | h
  · rfl
  · exact ElementPath.last?_of_coveredBy h

theorem defaultRules_mind (context : Ref) : ∀ entry ∈ defaultRules, ∀ path,
    Concerns entry.1 path → (∀ name ∈ path.last?, name ∉ newRuleNames) →
      entry.2.Minds context path.size := by
  have declares : ∀ {pattern : String} {path : ElementPath}, Concerns pattern path →
      (ElementPath.parse pattern).isWildcard = false → (ElementPath.parse pattern).size = 2 →
      path.size = 2 := fun h hexact hsize => (h.size_eq hexact).trans hsize
  have asks : ∀ {pattern : String} {path : ElementPath} {P : Prop}, Concerns pattern path →
      (∀ name ∈ path.last?, name ∉ newRuleNames) →
      (∃ name ∈ (ElementPath.parse pattern).last?, name ∈ newRuleNames) → P := by
    rintro pattern path P h hnew ⟨name, hlast, hname⟩
    rw [← h.last?_eq] at hlast
    exact absurd hname (hnew name hlast)
  unfold defaultRules
  simp only [List.forall_mem_cons, List.not_mem_nil, false_imp_iff, implies_true, and_true]
  refine ⟨?_, ?_, ?_, ?_, ?_, ?_, ?_, ?_, ?_, ?_, ?_, ?_, ?_, ?_, ?_, ?_⟩
  · exact fun _ _ _ => configuration_minds
  · exact fun _ _ _ => contextName_minds
  · exact fun _ _ _ => property_minds
  · exact fun _ _ _ => property_minds
  · exact fun _ _ _ => conversionRule_minds
  · intro path h _
    rw [declares h (by decide) (by decide)]
    exact logger_minds
  · exact fun _ _ _ => level_minds
  · intro path h _
    rw [declares h (by decide) (by decide)]
    exact rootLogger_minds
  · exact fun _ _ _ => level_minds
  · exact fun _ _ _ => appenderRef_minds
  · exact fun _ _ _ => appenderRef_minds
  · intro path h _
    rw [declares h (by decide) (by decide)]
    exact appender_minds (by decide)
  · intro path h _
    rw [h.size_eq (by decide)]
    exact layout_minds (by decide)
  · exact fun _ _ _ => param_minds
  · exact fun path h hnew => asks h hnew ⟨"newRule", by decide, by decide⟩
  · exact fun path h hnew => asks h hnew ⟨"new-rule", by decide, by decide⟩

theorem minds_defaultStore (context : Ref) (registry : ActionRegistry) :
    (defaultStore registry).Minds context := by
  intro path actions hmatch hnew
  obtain ⟨pattern, hmem, hconcerns⟩ := RuleStore.mem_of_match? hmatch
  obtain ⟨entry, hentry, n, he⟩ := mem_defaultStore hmem
  cases he
  exact ⟨_, rfl, (defaultRules_mind context entry hentry path hconcerns hnew).instance n⟩

end Actions
end LogConfig
