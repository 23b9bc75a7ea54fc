import LogConfig.Proofs.Rules.Resolution

/-
  Instances of named actions over time. From its last registration on a name has one template, and
  once it was resolved one instance, made from this template by the first resolution since
  (`exists_instance`). So the instance that a name resolves to is never older than the registration,
  and how many instances are kept follows from what was registered and resolved
  (`resolve_used`).
-/

namespace LogConfig

/-- The instance of an action with a number. -/
def Action.numbered (a : Action) (n : Nat) : Action := { a with instanceId := n }

namespace ActionRegistry

/-- A call on a registry. -/
inductive Use where
  | register (name : String) (template : Action)
  | resolve (name : String)

namespace Use

/-- The name under which a call looks: a registration takes it as it is. -/
def key : Use → String
  | register name _ => name
  | resolve name => Text.trim name

/-- Whether a call resolves a name. -/
def resolves (key : String) : Use → Bool
  | register _ _ => false
  | resolve name => decide (Text.trim name = key)

@[simp] theorem resolves_register (key name : String) (template : Action) :
    (register name template).resolves key = false := rfl

@[simp] theorem resolves_resolve (key name : String) :
    (resolve name).resolves key = decide (Text.trim name = key) := rfl

end Use

variable (reg : ActionRegistry)

/-- A registry after a call. -/
def take : Use → ActionRegistry
  | .register name template => reg.register name template
  | .resolve name => (reg.resolve name).1

/-- A registry after calls. -/
def after (uses : List Use) : ActionRegistry := uses.foldl take reg

/-- Resolving the name makes a new instance. -/
def Makes (name : String) : Prop := reg.nextId < (reg.resolve name).1.nextId

/-- The last registration of a name among calls, with its template, the calls before it and those
since. -/
structure LastRegistered (key : String) (template : Action) (before since uses : List Use) :
    Prop where
  split : uses = before ++ .register key template :: since
  last : ∀ other, .register key other ∉ since

/-- The name was resolved since its last registration. -/
def ResolvedSince (key : String) (uses : List Use) : Prop :=
  ∃ template before since, LastRegistered key template before since uses ∧
    since.any (Use.resolves key) = true

theorem after_append (uses later : List Use) :
    reg.after (uses ++ later) = (reg.after uses).after later := List.foldl_append ..

/-! ### One call -/

variable {reg} {key : String} {u : Use}

theorem find?_templates_take (h : ∀ other, u ≠ .register key other) :
    Entries.find? key (reg.take u).templates = Entries.find? key reg.templates := by
  cases u with
  | register name template =>
    have hne : key ≠ name := fun he => h template (by rw [he])
    exact Entries.find?_insert_of_ne hne template reg.templates
  | resolve name => rw [take, templates_resolve]

/-- A name gets an instance by being resolved, and keeps the one it has. -/
theorem find?_instances_take (h : ∀ other, u ≠ .register key other) :
    Entries.find? key (reg.take u).instances =
      if u.resolves key then (Entries.find? key reg.instances).or
        ((Entries.find? key reg.templates).map fun t => (reg.instantiate t).2)
      else Entries.find? key reg.instances := by
  cases u with
  | register name template =>
    have hne : key ≠ name := fun he => h template (by rw [he])
    show Entries.find? key (Entries.erase name reg.instances) = _
    rw [Entries.find?_erase, if_neg hne]
    rfl
  | resolve name =>
    rw [take, find?_resolve]
    by_cases hkey : key = Text.trim name
    · rw [if_pos hkey, if_pos (by simp [hkey]), hkey, offer?_eq]
    · have hother : ¬ Text.trim name = key := fun he => hkey he.symm
      rw [if_neg hkey, if_neg (by simp [hother])]

theorem nextId_le_take (reg : ActionRegistry) (u : Use) : reg.nextId ≤ (reg.take u).nextId := by
  cases u with
  | register name template => exact Nat.le_refl _
  | resolve name =>
    rw [take]
    cases reg.resolution name with
    | known a _ hresolve => simp [hresolve]
    | made template _ _ hresolve => simp [hresolve, instantiate]
    | unknown e _ _ hresolve => simp [hresolve]

/-- A new instance is made where the name has none and is registered. -/
theorem makes_iff {name : String} :
    reg.Makes name ↔ Entries.find? (Text.trim name) reg.instances = none ∧
      Entries.find? (Text.trim name) reg.templates ≠ none := by
  unfold Makes
  cases reg.resolution name with
  | known a hi hresolve => simp [hresolve, hi]
  | made template hi ht hresolve => simp [hresolve, hi, ht, instantiate]
  | unknown e hi ht hresolve => simp [hresolve, ht]

/-! ### Numbers of instances -/

/-- The instances that are kept have numbers that were given. -/
def Numbered (reg : ActionRegistry) : Prop :=
  ∀ key a, Entries.find? key reg.instances = some a → a.instanceId < reg.nextId

theorem Numbered.take (h : reg.Numbered) (u : Use) : (reg.take u).Numbered := by
  intro key a ha
  cases u with
  | register name template =>
    change Entries.find? key (Entries.erase name reg.instances) = some a at ha
    rw [Entries.find?_erase] at ha
    split at ha
    · cases ha
    · exact h key a ha
  | resolve name =>
    change Entries.find? key (reg.resolve name).1.instances = some a at ha
    show a.instanceId < (reg.resolve name).1.nextId
    cases reg.resolution name with
    | known b _ hresolve =>
      rw [hresolve] at ha ⊢
      exact h key a ha
    | unknown e _ _ hresolve =>
      rw [hresolve] at ha ⊢
      exact h key a ha
    | made template _ _ hresolve =>
      rw [hresolve] at ha ⊢
      rw [Entries.find?_insert] at ha
      split at ha
      · cases ha
        exact Nat.lt_succ_self _
      · exact Nat.lt_succ_of_lt (h key a ha)

theorem Numbered.after (h : reg.Numbered) (uses : List Use) : (reg.after uses).Numbered :=
  List.foldlRecOn uses ActionRegistry.take h fun _ hreg u _ => hreg.take u

theorem nextId_le_after (reg : ActionRegistry) (uses : List Use) :
    reg.nextId ≤ (reg.after uses).nextId := by
  induction uses generalizing reg with
  | nil => exact Nat.le_refl _
  | cons u uses ih => exact Nat.le_trans (reg.nextId_le_take u) (ih (reg.take u))

/-- An instance that a name resolved to has a lower number than all that come after it. -/
theorem Numbered.lt_of_resolve (h : reg.Numbered) {name : String} {a : Action}
    (ha : (reg.resolve name).2 = .ok a) (uses : List Use) :
    a.instanceId < ((reg.take (.resolve name)).after uses).nextId := by
  have hkept : Entries.find? (Text.trim name) (reg.take (.resolve name)).instances = some a := by
    rw [ActionRegistry.take, find?_resolve, if_pos rfl, offer?, ha]
    rfl
  exact Nat.lt_of_lt_of_le (h.take (.resolve name) _ _ hkept) (nextId_le_after _ uses)

/-! ### Since a registration -/

theorem unregistered_cons {uses : List Use} (h : ∀ other, .register key other ∉ u :: uses) :
    (∀ other, u ≠ .register key other) ∧ ∀ other, .register key other ∉ uses :=
  ⟨fun other hu => h other (by rw [hu]; exact List.mem_cons_self),
    fun other hother => h other (List.mem_cons_of_mem _ hother)⟩

/-- A name that is not registered again keeps its template. -/
theorem find?_templates_after {uses : List Use} (h : ∀ other, .register key other ∉ uses) :
    Entries.find? key (reg.after uses).templates = Entries.find? key reg.templates := by
  induction uses generalizing reg with
  | nil => rfl
  | cons u uses ih =>
    obtain ⟨hfirst, hrest⟩ := unregistered_cons h
    exact (ih hrest).trans (find?_templates_take hfirst)

/-- A name that has an instance and is not registered again keeps it. -/
theorem find?_instances_after {a : Action} (ha : Entries.find? key reg.instances = some a)
    {uses : List Use} (h : ∀ other, .register key other ∉ uses) :
    Entries.find? key (reg.after uses).instances = some a := by
  induction uses generalizing reg with
  | nil => exact ha
  | cons u uses ih =>
    obtain ⟨hfirst, hrest⟩ := unregistered_cons h
    refine ih ?_ hrest
    rw [find?_instances_take hfirst, ha, Option.some_or, ite_self]

/-- A name that is registered and has no instance: as long as it is not registered again, it gets
one by its first resolution, made from its template, and then keeps it. -/
theorem exists_instance {template : Action}
    (htemplate : Entries.find? key reg.templates = some template)
    (hnone : Entries.find? key reg.instances = none) {since : List Use}
    (hlast : ∀ other, .register key other ∉ since) :
    ∃ n, reg.nextId ≤ n ∧ ∀ seen, seen <+: since →
      Entries.find? key (reg.after seen).instances =
        if seen.any (Use.resolves key) then some (template.numbered n) else none := by
  induction since generalizing reg with
  | nil =>
    refine ⟨reg.nextId, Nat.le_refl _, fun seen hseen => ?_⟩
    rw [List.prefix_nil.1 hseen]
    exact hnone
  | cons u since ih =>
    obtain ⟨hfirst, hrest⟩ := unregistered_cons hlast
    have htake : Entries.find? key (reg.take u).instances = _ := find?_instances_take hfirst
    cases hu : u.resolves key with
    | true =>
      -- the first resolution makes the instance
      have hmade : Entries.find? key (reg.take u).instances =
          some (template.numbered reg.nextId) := by
        rw [htake, if_pos hu, hnone, htemplate]
        rfl
      refine ⟨reg.nextId, Nat.le_refl _, fun seen hseen => ?_⟩
      cases seen with
      | nil => exact hnone
      | cons v seen =>
        obtain ⟨rfl, htail⟩ := List.cons_prefix_cons.1 hseen
        rw [List.any_cons, hu, Bool.true_or, if_pos rfl]
        exact find?_instances_after hmade (fun other hother => hrest other (htail.subset hother))
    | false =>
      obtain ⟨n, hn, hafter⟩ := ih ((find?_templates_take hfirst).trans htemplate)
        (by rw [htake, hu]; exact hnone) hrest
      refine ⟨n, Nat.le_trans (reg.nextId_le_take u) hn, fun seen hseen => ?_⟩
      cases seen with
      | nil => exact hnone
      | cons v seen =>
        obtain ⟨rfl, htail⟩ := List.cons_prefix_cons.1 hseen
        rw [List.any_cons, hu, Bool.false_or]
        exact hafter seen htail

/-- A name that was never registered has neither template nor instance. -/
theorem find?_after_unregistered {uses : List Use} (h : ∀ other, .register key other ∉ uses) :
    Entries.find? key (empty.after uses).templates = none ∧
      Entries.find? key (empty.after uses).instances = none := by
  suffices hkept : ∀ reg : ActionRegistry, Entries.find? key reg.templates = none →
      Entries.find? key reg.instances = none → Entries.find? key (reg.after uses).instances = none by
    exact ⟨find?_templates_after h, hkept empty rfl rfl⟩
  induction uses with
  | nil => exact fun reg _ hi => hi
  | cons u uses ih =>
    intro reg ht hi
    obtain ⟨hfirst, hrest⟩ := unregistered_cons h
    refine ih hrest (reg.take u) ?_ ?_
    · rw [find?_templates_take hfirst, ht]
    · rw [find?_instances_take hfirst, ht, hi]
      exact ite_self _

theorem lastRegistered_or (key : String) (uses : List Use) :
    (∀ other, .register key other ∉ uses) ∨
      ∃ template before since, LastRegistered key template before since uses := by
  induction uses with
  | nil => exact .inl fun _ => List.not_mem_nil
  | cons u uses ih =>
    rcases ih with hnone | ⟨template, before, since, hsplit, hlast⟩
    · by_cases hu : ∃ template, u = .register key template
      · obtain ⟨template, rfl⟩ := hu
        exact .inr ⟨template, [], uses, rfl, hnone⟩
      · refine .inl fun other hother => ?_
        rcases List.mem_cons.1 hother with he | hother
        · exact hu ⟨other, he.symm⟩
        · exact hnone other hother
    · exact .inr ⟨template, u :: before, since, by rw [hsplit]; rfl, hlast⟩

namespace LastRegistered

variable {template : Action} {before since uses : List Use}

theorem resolve (h : LastRegistered key template before since uses) (name : String) :
    LastRegistered key template before (since ++ [.resolve name]) (uses ++ [.resolve name]) := by
  refine ⟨by rw [h.split]; simp, fun other hother => ?_⟩
  rcases List.mem_append.1 hother with hother | hother
  · exact h.last other hother
  · cases List.mem_singleton.1 hother

theorem find?_templates (h : LastRegistered key template before since uses) :
    Entries.find? key (empty.after uses).templates = some template := by
  rw [h.split, after_append]
  exact (find?_templates_after h.last).trans (Entries.find?_insert_self ..)

/-- The instance of a name since its last registration. -/
theorem find?_instances (h : LastRegistered key template before since uses) :
    ∃ n, (empty.after before).nextId ≤ n ∧ ∀ seen, seen <+: since →
      Entries.find? key (empty.after (before ++ .register key template :: seen)).instances =
        if seen.any (Use.resolves key) then some (template.numbered n) else none := by
  have hnone : Entries.find? key
      ((empty.after before).register key template).instances = none := by
    show Entries.find? key (Entries.erase key _) = none
    rw [Entries.find?_erase, if_pos rfl]
  obtain ⟨n, hn, hafter⟩ := exists_instance (Entries.find?_insert_self ..) hnone h.last
  refine ⟨n, hn, fun seen hseen => ?_⟩
  rw [after_append]
  exact hafter seen hseen

theorem mem (h : LastRegistered key template before since uses) :
    .register key template ∈ uses := by
  rw [h.split]
  exact List.mem_append_right _ List.mem_cons_self

/-- Since its last registration a name resolves to one instance, made from the template by the first
resolution. -/
theorem resolutions (h : LastRegistered key template before since uses) :
    ∃ n, (empty.after before).nextId ≤ n ∧ ∀ mid name rest, since = mid ++ .resolve name :: rest →
      Text.trim name = key →
      let now := empty.after (before ++ .register key template :: mid)
      (now.resolve name).2 = .ok (template.numbered n) ∧
        (now.Makes name ↔ mid.any (Use.resolves key) = false) := by
  obtain ⟨n, hn, hinstances⟩ := h.find?_instances
  refine ⟨n, hn, fun mid name rest hsince hname => ?_⟩
  intro now
  have hmid : mid <+: since := ⟨_, hsince.symm⟩
  have hsofar : LastRegistered key template before mid (before ++ .register key template :: mid) :=
    ⟨rfl, fun other hother => h.last other (hmid.subset hother)⟩
  constructor
  · have hnext := hinstances (mid ++ [.resolve name]) ⟨rest, by rw [hsince]; simp⟩
    have hresolved : (mid ++ [Use.resolve name]).any (Use.resolves key) = true := by
      simp [hname]
    have hafter : empty.after (before ++ .register key template :: (mid ++ [.resolve name])) =
        (now.resolve name).1 := by
      rw [← List.cons_append, ← List.append_assoc, after_append]
      rfl
    rw [hresolved, if_pos rfl, hafter, find?_resolve, if_pos hname.symm, offer?] at hnext
    cases hr : (now.resolve name).2 with
    | ok a =>
      rw [hr] at hnext
      rw [Option.some.inj hnext]
    | error e =>
      rw [hr] at hnext
      cases hnext
  · rw [makes_iff, hname, hsofar.find?_templates, hinstances mid hmid]
    cases mid.any (Use.resolves key) with
    | true => simp
    | false => simp

end LastRegistered

/-! ### What is registered and kept -/

theorem resolve_eq_error_iff {name : String} {e : ConfigError} :
    (reg.resolve name).2 = .error e ↔
      e = .instantiation (Text.trim name) "no action registered under this name" ∧
        Entries.find? (Text.trim name) reg.instances = none ∧
        Entries.find? (Text.trim name) reg.templates = none := by
  unfold resolve
  dsimp only
  cases Entries.find? (Text.trim name) reg.instances with
  | some a => simp
  | none =>
    cases Entries.find? (Text.trim name) reg.templates with
    | some template => simp
    | none => simp [eq_comm]

theorem find?_templates_eq_none_iff (key : String) (uses : List Use) :
    Entries.find? key (empty.after uses).templates = none ↔
      ∀ template, .register key template ∉ uses := by
  rcases lastRegistered_or key uses with hnone | ⟨template, before, since, hlast⟩
  · exact ⟨fun _ => hnone, fun _ => (find?_after_unregistered hnone).1⟩
  · rw [hlast.find?_templates]
    exact ⟨nofun, fun h => absurd hlast.mem (h template)⟩

theorem find?_instances_ne_none_iff (key : String) (uses : List Use) :
    Entries.find? key (empty.after uses).instances ≠ none ↔ ResolvedSince key uses := by
  constructor
  · intro h
    rcases lastRegistered_or key uses with hnone | ⟨template, before, since, hlast⟩
    · exact absurd (find?_after_unregistered hnone).2 h
    · obtain ⟨n, -, hinstances⟩ := hlast.find?_instances
      have hnow := hinstances since (List.prefix_refl since)
      rw [← hlast.split] at hnow
      cases hresolved : since.any (Use.resolves key) with
      | true => exact ⟨template, before, since, hlast, hresolved⟩
      | false =>
        rw [hresolved] at hnow
        exact absurd hnow h
  · rintro ⟨template, before, since, hlast, hresolved⟩
    obtain ⟨n, -, hinstances⟩ := hlast.find?_instances
    have hnow := hinstances since (List.prefix_refl since)
    rw [← hlast.split, if_pos hresolved] at hnow
    rw [hnow]
    nofun

/-- No name has two instances. -/
theorem nodup_instances_take (h : (Entries.keys reg.instances).Nodup) (u : Use) :
    (Entries.keys (reg.take u).instances).Nodup := by
  cases u with
  | register name template => exact h.sublist (List.filter_sublist.map Prod.fst)
  | resolve name =>
    rw [take]
    cases reg.resolution name with
    | known a _ hresolve => rwa [hresolve]
    | unknown e _ _ hresolve => rwa [hresolve]
    | made template hi _ hresolve =>
      have hnew := (Entries.find?_eq_none_iff _ _).1 hi
      rw [hresolve, Entries.keys_insert, if_neg hnew]
      refine List.nodup_append.2 ⟨h, by simp, fun name hname other hother he => ?_⟩
      rw [List.mem_singleton.1 hother] at he
      exact hnew (he ▸ hname)

theorem nodup_instances_after (h : (Entries.keys reg.instances).Nodup) (uses : List Use) :
    (Entries.keys (reg.after uses).instances).Nodup := by
  induction uses generalizing reg with
  | nil => exact h
  | cons u uses ih => exact ih (nodup_instances_take h u)

/-! ### Other names -/

/-- The calls for one name. -/
def own (key : String) (uses : List Use) : List Use := uses.filter fun u => u.key = key

theorem LastRegistered.own {template : Action} {before since uses : List Use}
    (h : LastRegistered key template before since uses) :
    LastRegistered key template (ActionRegistry.own key before) (ActionRegistry.own key since)
      (ActionRegistry.own key uses) := by
  refine ⟨?_, fun other hother => h.last other (List.mem_filter.1 hother).1⟩
  rw [h.split]
  simp [ActionRegistry.own, Use.key]

theorem any_own (key : String) (uses : List Use) :
    (own key uses).any (Use.resolves key) = uses.any (Use.resolves key) := by
  have hkey : ∀ u : Use, u.resolves key = true → u.key = key := by
    intro u hu
    cases u with
    | register name template => cases hu
    | resolve name => exact of_decide_eq_true hu
  rw [own, List.any_filter]
  refine List.any_congr rfl fun u => ?_
  cases hu : u.resolves key with
  | true => simp [hkey u hu]
  | false => simp

theorem LastRegistered.offer?_eq {template : Action} {before since uses : List Use} {name : String}
    (h : LastRegistered (Text.trim name) template before since uses) :
    ∃ n, (empty.after uses).offer? name = some (template.numbered n) := by
  obtain ⟨n, -, hresolutions⟩ := (h.resolve name).resolutions
  have hnow := (hresolutions since name [] rfl rfl).1
  rw [← h.split] at hnow
  exact ⟨n, by rw [offer?, hnow]; rfl⟩

theorem LastRegistered.makes_iff {template : Action} {before since uses : List Use} {name : String}
    (h : LastRegistered (Text.trim name) template before since uses) :
    (empty.after uses).Makes name ↔ since.any (Use.resolves (Text.trim name)) = false := by
  obtain ⟨n, -, hresolutions⟩ := (h.resolve name).resolutions
  have hnow := (hresolutions since name [] rfl rfl).2
  rwa [← h.split] at hnow

/-- What is used under other names shows in nothing but the numbers of instances. -/
theorem own_spec (name : String) (uses : List Use) :
    ((empty.after (own (Text.trim name) uses)).offer? name).map Action.unnumbered =
        ((empty.after uses).offer? name).map Action.unnumbered ∧
      ((empty.after (own (Text.trim name) uses)).Makes name ↔ (empty.after uses).Makes name) := by
  rcases lastRegistered_or (Text.trim name) uses with hnone | ⟨template, before, since, hlast⟩
  · have hnone' : ∀ other, .register (Text.trim name) other ∉ own (Text.trim name) uses :=
      fun other hother => hnone other (List.mem_filter.1 hother).1
    obtain ⟨ht, hi⟩ := find?_after_unregistered hnone
    obtain ⟨ht', hi'⟩ := find?_after_unregistered hnone'
    rw [offer?_eq, offer?_eq, ActionRegistry.makes_iff, ActionRegistry.makes_iff, ht, hi, ht', hi']
    exact ⟨rfl, Iff.rfl⟩
  · obtain ⟨n, hoffer⟩ := hlast.offer?_eq
    obtain ⟨m, hoffer'⟩ := hlast.own.offer?_eq
    rw [hoffer, hoffer', hlast.makes_iff, hlast.own.makes_iff, any_own]
    exact ⟨rfl, Iff.rfl⟩

/-! ### What names resolve to -/

/-- Named actions after any calls on an empty registry. A name fails to resolve exactly when
nothing was registered under it, and what the registry contains says the same. Otherwise all its
resolutions since its last registration give one instance, made from the template that was
registered last, and newer than all that any name resolved to before; the first of these
resolutions makes the instance, and the others make none. What was used under other names changes
none of this, but for the number of the instance. As many instances are kept as names were
resolved since their last registration. -/
theorem resolve_used (uses : List Use) :
    let reg := empty.after uses
    (∀ name e, (reg.resolve name).2 = .error e ↔
      e = .instantiation (Text.trim name) "no action registered under this name" ∧
        ∀ template, .register (Text.trim name) template ∉ uses) ∧
    (∀ name, reg.contains name = true ↔
      ∃ template, .register (Text.trim name) template ∈ uses) ∧
    (∀ name template before since,
      LastRegistered (Text.trim name) template before since uses →
      ∃ n, (∀ earlier other later a, before = earlier ++ .resolve other :: later →
          ((empty.after earlier).resolve other).2 = .ok a → a.instanceId < n) ∧
        ∀ mid other rest, since ++ [.resolve name] = mid ++ .resolve other :: rest →
          Text.trim other = Text.trim name →
          let now := empty.after (before ++ .register (Text.trim name) template :: mid)
          (now.resolve other).2 = .ok (template.numbered n) ∧
            (now.Makes other ↔ mid.any (Use.resolves (Text.trim name)) = false)) ∧
    (∀ name, let alone := empty.after (own (Text.trim name) uses)
      alone.contains name = reg.contains name ∧
        (alone.offer? name).map Action.unnumbered = (reg.offer? name).map Action.unnumbered ∧
        (alone.Makes name ↔ reg.Makes name)) ∧
    ∃ names : List String, names.Nodup ∧ (∀ key, key ∈ names ↔ ResolvedSince key uses) ∧
      reg.cachedCount = names.length := by
  intro reg
  have hcontains : ∀ uses name, (empty.after uses).contains name = true ↔
      ∃ template, .register (Text.trim name) template ∈ uses := by
    intro uses name
    rw [contains, Entries.contains, Option.isSome_iff_ne_none, ne_eq, find?_templates_eq_none_iff]
    simp
  refine ⟨fun name e => ?_, hcontains uses, fun name template before since hlast => ?_,
    fun name => ?_, Entries.keys reg.instances, ?_, fun key => ?_, ?_⟩
  · rw [resolve_eq_error_iff, find?_templates_eq_none_iff]
    refine and_congr_right fun _ => ⟨And.right, fun hnone => ⟨?_, hnone⟩⟩
    exact (find?_after_unregistered hnone).2
  · obtain ⟨n, hn, hresolutions⟩ := (hlast.resolve name).resolutions
    refine ⟨n, fun earlier other later a hbefore ha => ?_, hresolutions⟩
    have hempty : empty.Numbered := nofun
    have hlater := (hempty.after earlier).lt_of_resolve ha later
    rw [hbefore, after_append] at hn
    exact Nat.lt_of_lt_of_le hlater hn
  · obtain ⟨hoffer, hmakes⟩ := own_spec name uses
    refine ⟨?_, hoffer, hmakes⟩
    rw [Bool.eq_iff_iff, hcontains, hcontains]
    simp [own, Use.key]
  · have hempty : (Entries.keys empty.instances).Nodup := List.nodup_nil
    exact nodup_instances_after hempty uses
  · rw [← find?_instances_ne_none_iff, ne_eq, Entries.find?_eq_none_iff, Classical.not_not]
  · rw [cachedCount, Entries.keys, List.length_map]

/-- A name that was resolved is registered again: its next resolution gives a newer instance, made
from the new template, and further ones give the same. -/
theorem resolve_used_replaced :
    let old : Action := { name := "Old", begin := fun _ _ => pure none }
    let new : Action := { name := "New", begin := fun _ _ => pure none }
    let before : List Use := [.register "A" old, .resolve "A"]
    let since : List Use := [.register "B" old, .resolve " A ", .resolve "B"]
    let uses := before ++ .register "A" new :: since
    LastRegistered (Text.trim "A") new before since uses ∧
      ∃ n, 0 < n ∧ ((empty.after uses).resolve "A").2 = .ok (new.numbered n) ∧
        ¬ (empty.after uses).Makes "A" := by
  intro old new before since uses
  have htrim : Text.trim "A" = "A" := by decide +kernel
  have hlast : LastRegistered (Text.trim "A") new before since uses := by
    rw [htrim]
    exact ⟨rfl, by simp [since]⟩
  obtain ⟨-, -, hresolves, -⟩ := resolve_used uses
  obtain ⟨n, hnewer, hsame⟩ := hresolves "A" new before since hlast
  obtain ⟨hanswer, hmakes⟩ := hsame since "A" [] rfl rfl
  rw [htrim] at hanswer hmakes
  refine ⟨hlast, n, ?_, hanswer, fun h => ?_⟩
  · exact hnewer [.register "A" old] "A" [] (old.numbered 0) rfl rfl
  · have hresolved : since.any (Use.resolves "A") = true := by decide +kernel
    rw [hmakes.1 h] at hresolved
    cases hresolved

end ActionRegistry
end LogConfig
