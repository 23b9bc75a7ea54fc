import LogConfig.Proofs.Report.Dispatch
import LogConfig.Proofs.Rules.Resolution

/-
  Which actions a path gets. Among the rules of a store those of exactly the path count, and else
  those of the wildcard pattern that covers the most names (`Answers`, `answers_match?`). There is
  one such pattern at most, since of the ends of a path only one has a given length. So the order
  of registrations for different patterns does not matter (`match?_registered`).
-/

namespace LogConfig

namespace ElementPath

/-- The pattern of every path that ends in these names. -/
def wildcard (tail : List String) : ElementPath := ⟨anyNesting :: tail⟩

theorem coveredBy_wildcard {path : ElementPath} {tail : List String} (hne : tail ≠ [])
    (hsuffix : tail <:+ path.tags) : path.coveredBy (wildcard tail) = tail.length := by
  obtain ⟨tag, rest, rfl⟩ := List.exists_cons_of_ne_nil hne
  have htail : (wildcard (tag :: rest)).wildcardTail? = some (tag :: rest) := by
    simp only [wildcard, wildcardTail?, if_true]
  rw [coveredBy, htail]
  exact if_pos hsuffix

/-- A pattern covers names of a path exactly when it is a wildcard pattern and the path ends in the
names after its star. -/
theorem coveredBy_pos_iff {path pattern : ElementPath} :
    0 < path.coveredBy pattern ↔
      ∃ tail, pattern = wildcard tail ∧ tail ≠ [] ∧ tail <:+ path.tags := by
  constructor
  · intro h
    unfold coveredBy at h
    split at h
    · next tail htail =>
      split at h
      · next hsuffix =>
        unfold wildcardTail? at htail
        split at htail
        · next star tag rest =>
          split at htail
          · next hstar =>
            cases htail
            exact ⟨tag :: rest, by rw [hstar, wildcard], List.cons_ne_nil _ _, hsuffix⟩
          · cases htail
        · cases htail
      · cases h
    · cases h
  · rintro ⟨tail, rfl, hne, hsuffix⟩
    rw [coveredBy_wildcard hne hsuffix]
    exact List.length_pos_iff.2 hne

end ElementPath

namespace RuleStore

open ElementPath (wildcard)

/-! ### The rule that counts -/

section
variable (bound : ElementPath → List Action) (path : ElementPath)

/-- There are actions for the paths that end in these names, and this path does. -/
structure Covers (tail : List String) : Prop where
  nonempty : tail ≠ []
  suffix : tail <:+ path.tags
  used : bound (wildcard tail) ≠ []

/-- There are actions for the paths that end in these names, and for no longer end of this path. -/
structure Widest (tail : List String) : Prop extends Covers bound path tail where
  widest : ∀ other, Covers bound path other → other.length ≤ tail.length

/-- The actions for a path: those bound to it, else those of the widest wildcard pattern, else
none. -/
inductive Answers : Option (List Action) → Prop where
  | exact : bound path ≠ [] → Answers (some (bound path))
  | wildcard {tail : List String} : bound path = [] → Widest bound path tail →
    Answers (some (bound (ElementPath.wildcard tail)))
  | nothing : bound path = [] → (∀ tail, ¬ Covers bound path tail) → Answers none

end

variable {bound bound' : ElementPath → List Action} {path : ElementPath}

/-- The ends of a path with one length are one. -/
theorem Widest.unique {tail other : List String} (h : Widest bound path tail)
    (hother : Widest bound path other) : other = tail := by
  have hlength : other.length = tail.length :=
    Nat.le_antisymm (h.widest other hother.toCovers) (hother.widest tail h.toCovers)
  have hsuffix := List.suffix_of_suffix_length_le hother.suffix h.suffix (Nat.le_of_eq hlength)
  exact hsuffix.eq_of_length hlength

/-- Two tables that agree on what is bound to every pattern, up to a view of the actions, give every
path the same answer in this view. -/
theorem Answers.agree {β : Type} {view : Action → β}
    (hbound : ∀ pattern, (bound pattern).map view = (bound' pattern).map view)
    {answer answer' : Option (List Action)} (h : Answers bound path answer)
    (h' : Answers bound' path answer') :
    answer.map (List.map view) = answer'.map (List.map view) := by
  have hempty : ∀ pattern, bound pattern = [] ↔ bound' pattern = [] := by
    intro pattern
    rw [← List.map_eq_nil_iff (f := view), hbound pattern, List.map_eq_nil_iff]
  have hcovers : ∀ tail, Covers bound path tail ↔ Covers bound' path tail := fun tail =>
    ⟨fun hc => ⟨hc.nonempty, hc.suffix, fun he => hc.used ((hempty _).2 he)⟩,
      fun hc => ⟨hc.nonempty, hc.suffix, fun he => hc.used ((hempty _).1 he)⟩⟩
  cases h with
  | exact hne =>
    cases h' with
    | exact _ => exact congrArg some (hbound path)
    | wildcard hnone _ | nothing hnone _ => exact absurd ((hempty path).2 hnone) hne
  | wildcard hnone hwidest =>
    cases h' with
    | exact hne => exact absurd ((hempty path).1 hnone) hne
    | nothing _ hno => exact absurd ((hcovers _).1 hwidest.toCovers) (hno _)
    | wildcard _ hwidest' =>
      have hsame : Widest bound path _ :=
        ⟨(hcovers _).2 hwidest'.toCovers, fun other ho => hwidest'.widest other ((hcovers _).1 ho)⟩
      rw [hwidest.unique hsame]
      exact congrArg some (hbound _)
  | nothing hnone hno =>
    cases h' with
    | exact hne => exact absurd ((hempty path).1 hnone) hne
    | wildcard _ hwidest => exact absurd ((hcovers _).2 hwidest.toCovers) (hno _)
    | nothing _ _ => rfl

/-- A path has one answer. -/
theorem Answers.unique {answer answer' : Option (List Action)} (h : Answers bound path answer)
    (h' : Answers bound path answer') : answer = answer' := by
  have hsame : answer.map (List.map id) = answer'.map (List.map id) :=
    Answers.agree (fun _ => rfl) h h'
  simpa only [List.map_id_fun, Option.map_id_fun, id] using hsame

/-! ### Looking a path up -/

/-- The actions that a table of rules has for exactly this pattern. -/
def boundIn (rules : List (ElementPath × List Action)) (pattern : ElementPath) : List Action :=
  (boundTo? pattern rules).getD []

/-- A scan that finds no rule was asked for more names than any rule covers. -/
theorem widest?_eq_none {rules : List (ElementPath × List Action)} {covered : Nat}
    (h : widest? path covered rules = none) :
    ∀ rule ∈ rules, path.coveredBy rule.1 ≤ covered := by
  induction rules with
  | nil => nofun
  | cons rule rest ih =>
    unfold widest? at h
    split at h
    · cases h
    · next hcovers => exact List.forall_mem_cons.2 ⟨Nat.le_of_not_lt hcovers, ih h⟩

/-- What the scan for the widest rule finds covers more names than was asked for, and no rule covers
more. -/
theorem widest?_eq_some {rules : List (ElementPath × List Action)} {covered : Nat}
    {actions : List Action} (h : widest? path covered rules = some actions) :
    ∃ pattern, boundTo? pattern rules = some actions ∧ covered < path.coveredBy pattern ∧
      ∀ rule ∈ rules, path.coveredBy rule.1 ≤ path.coveredBy pattern := by
  induction rules generalizing covered actions with
  | nil => cases h
  | cons rule rest ih =>
    obtain ⟨p, bound⟩ := rule
    -- a rule of the rest that covers more than the first one is not the first one
    have later : ∀ {n : Nat} {found : List Action}, path.coveredBy p ≤ n →
        widest? path n rest = some found →
        ∃ pattern, boundTo? pattern ((p, bound) :: rest) = some found ∧
          n < path.coveredBy pattern ∧
          ∀ rule ∈ (p, bound) :: rest, path.coveredBy rule.1 ≤ path.coveredBy pattern := by
      intro n found hle hfound
      obtain ⟨pattern, hbound, hwider, hmost⟩ := ih hfound
      have hne : p ≠ pattern := by
        rintro rfl
        exact Nat.lt_irrefl _ (Nat.lt_of_lt_of_le hwider hle)
      refine ⟨pattern, by rw [boundTo?, if_neg hne, hbound], hwider, fun rule hrule => ?_⟩
      rcases List.mem_cons.1 hrule with rfl | hrule
      · exact Nat.le_trans hle (Nat.le_of_lt hwider)
      · exact hmost rule hrule
    unfold widest? at h
    split at h
    · next hcovers =>
      cases hw : widest? path (path.coveredBy p) rest with
      | some found =>
        rw [hw] at h
        cases h
        obtain ⟨pattern, hbound, hwider, hmost⟩ := later (Nat.le_refl _) hw
        exact ⟨pattern, hbound, Nat.lt_trans hcovers hwider, hmost⟩
      | none =>
        rw [hw] at h
        cases h
        refine ⟨p, by simp [boundTo?], hcovers, fun rule hrule => ?_⟩
        rcases List.mem_cons.1 hrule with rfl | hrule
        · exact Nat.le_refl _
        · exact widest?_eq_none hw rule hrule
    · next hcovers => exact later (Nat.le_of_not_lt hcovers) h

theorem boundIn_eq_nil {rules : List (ElementPath × List Action)}
    (hbinding : ∀ rule ∈ rules, rule.2 ≠ []) {pattern : ElementPath} :
    boundIn rules pattern = [] ↔ boundTo? pattern rules = none := by
  unfold boundIn
  cases hb : boundTo? pattern rules with
  | none => simp
  | some actions => simpa using hbinding _ (mem_of_boundTo? hb)

theorem exists_widest {rules : List (ElementPath × List Action)}
    (hbinding : ∀ rule ∈ rules, rule.2 ≠ []) {actions : List Action}
    (h : widest? path 0 rules = some actions) :
    ∃ tail, Widest (boundIn rules) path tail ∧ boundIn rules (wildcard tail) = actions := by
  obtain ⟨pattern, hbound, hcovers, hmost⟩ := widest?_eq_some h
  obtain ⟨tail, rfl, hne, hsuffix⟩ := ElementPath.coveredBy_pos_iff.1 hcovers
  have hactions : boundIn rules (wildcard tail) = actions := by rw [boundIn, hbound]; rfl
  have hused : actions ≠ [] := hbinding _ (mem_of_boundTo? hbound)
  refine ⟨tail, ⟨⟨hne, hsuffix, by rwa [hactions]⟩, fun other ho => ?_⟩, hactions⟩
  cases hother : boundTo? (wildcard other) rules with
  | none => exact absurd ((boundIn_eq_nil hbinding).2 hother) ho.used
  | some bound =>
    have hle := hmost _ (mem_of_boundTo? hother)
    rwa [ElementPath.coveredBy_wildcard ho.nonempty ho.suffix,
      ElementPath.coveredBy_wildcard hne hsuffix] at hle

theorem not_covers {rules : List (ElementPath × List Action)}
    (hbinding : ∀ rule ∈ rules, rule.2 ≠ []) (h : widest? path 0 rules = none)
    (tail : List String) : ¬ Covers (boundIn rules) path tail := by
  intro hcovers
  cases hbound : boundTo? (wildcard tail) rules with
  | none => exact hcovers.used ((boundIn_eq_nil hbinding).2 hbound)
  | some actions =>
    have hle := widest?_eq_none h _ (mem_of_boundTo? hbound)
    rw [ElementPath.coveredBy_wildcard hcovers.nonempty hcovers.suffix] at hle
    exact hcovers.nonempty (List.length_eq_zero_iff.1 (Nat.le_zero.1 hle))

/-- What a store answers for a path is what its rules say of the path. -/
theorem answers_match? {store : RuleStore} (h : store.Binding) (path : ElementPath) :
    Answers (boundIn store.rules) path (store.match? path) := by
  unfold match?
  cases hb : boundTo? path store.rules with
  | some actions =>
    have hactions : boundIn store.rules path = actions := by rw [boundIn, hb]; rfl
    rw [← hactions]
    exact .exact (by rw [hactions]; exact h _ (mem_of_boundTo? hb))
  | none =>
    have hnone := (boundIn_eq_nil h).2 hb
    cases hw : widest? path 0 store.rules with
    | none => exact .nothing hnone (not_covers h hw)
    | some actions =>
      obtain ⟨tail, hwidest, hactions⟩ := exists_widest h hw
      rw [← hactions]
      exact .wildcard hnone hwidest

/-! ### Registrations -/

/-- A call that binds an action to a pattern: an action that is given, or one that is named. -/
inductive Registration where
  | given (pattern : ElementPath) (a : Action)
  | named (pattern : ElementPath) (name : String)

namespace Registration

def pattern : Registration → ElementPath
  | given pattern _ => pattern
  | named pattern _ => pattern

/-- The action that a call binds, if there is one. -/
def action? (registry : ActionRegistry) : Registration → Option Action
  | given _ a => some a
  | named _ name => registry.offer? name

/-- The registry after a call. -/
def registryAfter (registry : ActionRegistry) : Registration → ActionRegistry
  | given _ _ => registry
  | named _ name => (registry.resolve name).1

/-- What a call binds: one action to its pattern, or nothing. -/
def binding (registry : ActionRegistry) (call : Registration) : List (ElementPath × Action) :=
  ((call.action? registry).map fun a => (call.pattern, a)).toList

/-- The call makes no new instance. -/
def Settled (registry : ActionRegistry) : Registration → Prop
  | given _ _ => True
  | named _ name => registry.Settled name

variable {registry : ActionRegistry} {call : Registration}

theorem settled_after (registry : ActionRegistry) (call : Registration) :
    call.Settled (call.registryAfter registry) ∧
      call.action? (call.registryAfter registry) = call.action? registry := by
  cases call with
  | given pattern a => exact ⟨trivial, rfl⟩
  | named pattern name =>
    exact ⟨registry.settled_resolve name, registry.offer?_resolve_self name⟩

theorem Settled.registryAfter_eq (h : call.Settled registry) :
    call.registryAfter registry = registry := by
  cases call with
  | given pattern a => rfl
  | named pattern name => exact ActionRegistry.Settled.resolve_eq h

theorem Settled.kept (h : call.Settled registry) (other : Registration) :
    call.Settled (other.registryAfter registry) ∧
      call.action? (other.registryAfter registry) = call.action? registry := by
  cases other with
  | given pattern a => exact ⟨h, rfl⟩
  | named pattern name =>
    cases call with
    | given pattern a => exact ⟨trivial, rfl⟩
    | named pattern' name' => exact ActionRegistry.Settled.kept h name

theorem unnumbered_action? (registry : ActionRegistry) (call other : Registration) :
    (call.action? (other.registryAfter registry)).map Action.unnumbered =
      (call.action? registry).map Action.unnumbered := by
  cases other with
  | given pattern a => rfl
  | named pattern name =>
    cases call with
    | given pattern a => rfl
    | named pattern' name' => exact registry.unnumbered_offer?_resolve name' name

end Registration

/-- A store after a call. -/
def register (store : RuleStore) : Registration → RuleStore
  | .given pattern a => store.add pattern a
  | .named pattern name => (store.addByName pattern name).1

/-- The store after calls on an empty one. -/
def registered (registry : ActionRegistry) (calls : List Registration) : RuleStore :=
  calls.foldl register { registry }

/-- What calls bind, in their order. -/
def bindings (registry : ActionRegistry) : List Registration → List (ElementPath × Action)
  | [] => []
  | call :: calls => call.binding registry ++ bindings (call.registryAfter registry) calls

/-- The actions bound to a pattern, in the order in which they were bound. -/
def boundBy (bindings : List (ElementPath × Action)) (pattern : ElementPath) : List Action :=
  (bindings.filter fun binding => binding.1 = pattern).map Prod.snd

/-- The registry after calls. -/
def registryAfter (registry : ActionRegistry) (calls : List Registration) : ActionRegistry :=
  calls.foldl Registration.registryAfter registry

theorem boundBy_append (earlier later : List (ElementPath × Action)) (pattern : ElementPath) :
    boundBy (earlier ++ later) pattern = boundBy earlier pattern ++ boundBy later pattern := by
  rw [boundBy, List.filter_append, List.map_append]
  rfl

theorem boundBy_binding (registry : ActionRegistry) (call : Registration) (pattern : ElementPath) :
    boundBy (call.binding registry) pattern =
      if call.pattern = pattern then (call.action? registry).toList else [] := by
  unfold boundBy Registration.binding
  cases call.action? registry with
  | none => simp
  | some a => by_cases h : call.pattern = pattern <;> simp [h]

theorem boundIn_bind (pattern : ElementPath) (a : Action)
    (rules : List (ElementPath × List Action)) (path : ElementPath) :
    boundIn (bind pattern a rules) path =
      boundIn rules path ++ if pattern = path then [a] else [] := by
  unfold boundIn
  induction rules with
  | nil => by_cases h : pattern = path <;> simp [bind, boundTo?, h]
  | cons rule rest ih =>
    obtain ⟨p, actions⟩ := rule
    unfold bind
    split
    · next hp =>
      subst hp
      by_cases h : p = path <;> simp [boundTo?, h]
    · next hp =>
      by_cases h : p = path
      · have hne : pattern ≠ path := fun he => hp (h.trans he.symm)
        simp [boundTo?, h, hne]
      · simp only [boundTo?, h, if_false]
        exact ih

/-- A call adds what it binds to the rules. -/
theorem register_spec (store : RuleStore) (call : Registration) :
    (store.register call).registry = call.registryAfter store.registry ∧
      ∀ path, boundIn (store.register call).rules path =
        boundIn store.rules path ++ boundBy (call.binding store.registry) path := by
  cases call with
  | given pattern a =>
    refine ⟨rfl, fun path => ?_⟩
    rw [boundBy_binding]
    exact boundIn_bind pattern a store.rules path
  | named pattern name =>
    unfold register
    dsimp only
    unfold addByName
    rcases hr : store.registry.resolve name with ⟨registry, e | a⟩
    · refine ⟨by rw [Registration.registryAfter, hr], fun path => ?_⟩
      rw [boundBy_binding, Registration.action?, ActionRegistry.offer?, hr]
      simp [Except.toOption]
    · refine ⟨by rw [Registration.registryAfter, hr]; rfl, fun path => ?_⟩
      rw [boundBy_binding, Registration.action?, ActionRegistry.offer?, hr]
      exact boundIn_bind pattern a store.rules path

theorem foldl_register (store : RuleStore) (calls : List Registration) :
    (calls.foldl register store).registry = registryAfter store.registry calls ∧
      ∀ path, boundIn (calls.foldl register store).rules path =
        boundIn store.rules path ++ boundBy (bindings store.registry calls) path := by
  induction calls generalizing store with
  | nil => exact ⟨rfl, fun path => (List.append_nil _).symm⟩
  | cons call calls ih =>
    obtain ⟨hregistry, hrules⟩ := store.register_spec call
    obtain ⟨hregistry', hrules'⟩ := ih (store.register call)
    rw [hregistry] at hregistry' hrules'
    refine ⟨hregistry', fun path => ?_⟩
    rw [List.foldl_cons, hrules', hrules, bindings, boundBy_append, List.append_assoc]

theorem registry_registered (registry : ActionRegistry) (calls : List Registration) :
    (registered registry calls).registry = registryAfter registry calls :=
  (foldl_register _ calls).1

theorem boundIn_registered (registry : ActionRegistry) (calls : List Registration) :
    boundIn (registered registry calls).rules = boundBy (bindings registry calls) := by
  funext path
  exact (foldl_register { registry } calls).2 path

theorem binding_registered (registry : ActionRegistry) (calls : List Registration) :
    (registered registry calls).Binding := by
  refine List.foldlRecOn calls register (fun rule hrule => absurd hrule List.not_mem_nil) ?_
  intro store hstore call _
  cases call with
  | given pattern a => exact hstore.add pattern a
  | named pattern name => exact hstore.addByName pattern name

/-! ### The order of registrations -/

/-- The calls for each pattern are the same, in the same order. -/
def Rearranges (calls calls' : List Registration) : Prop :=
  ∀ pattern, (calls'.filter fun call => call.pattern = pattern) =
    calls.filter fun call => call.pattern = pattern

theorem Rearranges.mem {calls calls' : List Registration} (h : Rearranges calls calls')
    {call : Registration} (hcall : call ∈ calls') : call ∈ calls := by
  have hmem : call ∈ calls'.filter fun other => other.pattern = call.pattern :=
    List.mem_filter.2 ⟨hcall, decide_eq_true rfl⟩
  rw [h call.pattern] at hmem
  exact (List.mem_filter.1 hmem).1

/-- Where no call makes a new instance, what is bound to a pattern depends on the calls for it
only. -/
theorem boundBy_flatMap (registry : ActionRegistry) (calls : List Registration)
    (pattern : ElementPath) :
    boundBy (calls.flatMap (Registration.binding registry)) pattern =
      (calls.filter fun call => call.pattern = pattern).flatMap fun call =>
        (call.action? registry).toList := by
  induction calls with
  | nil => rfl
  | cons call calls ih =>
    rw [List.flatMap_cons, boundBy_append, boundBy_binding, ih]
    by_cases h : call.pattern = pattern <;> simp [h]

/-- Calls that make no new instance leave the registry as it is. -/
theorem of_settled {registry : ActionRegistry} {calls : List Registration}
    (h : ∀ call ∈ calls, call.Settled registry) :
    registryAfter registry calls = registry ∧
      bindings registry calls = calls.flatMap (Registration.binding registry) := by
  induction calls with
  | nil => exact ⟨rfl, rfl⟩
  | cons call calls ih =>
    obtain ⟨hcall, hcalls⟩ := List.forall_mem_cons.1 h
    obtain ⟨hregistry, hbindings⟩ := ih hcalls
    have hafter := hcall.registryAfter_eq
    refine ⟨?_, by rw [bindings, hafter, hbindings, List.flatMap_cons]⟩
    rw [registryAfter, List.foldl_cons, hafter]
    exact hregistry

theorem Registration.Settled.run {registry : ActionRegistry} {call : Registration}
    (h : call.Settled registry) (calls : List Registration) :
    call.Settled (RuleStore.registryAfter registry calls) ∧
      call.action? (RuleStore.registryAfter registry calls) = call.action? registry := by
  induction calls generalizing registry with
  | nil => exact ⟨h, rfl⟩
  | cons other calls ih =>
    obtain ⟨hsettled, haction⟩ := h.kept other
    obtain ⟨hsettled', haction'⟩ := ih hsettled
    exact ⟨hsettled', haction'.trans haction⟩

/-- After calls none of them would make a new instance, and each would bind what it bound. -/
theorem settled_registryAfter (registry : ActionRegistry) (calls : List Registration) :
    (∀ call ∈ calls, call.Settled (registryAfter registry calls)) ∧
      bindings registry calls =
        calls.flatMap (Registration.binding (registryAfter registry calls)) := by
  induction calls generalizing registry with
  | nil => exact ⟨nofun, rfl⟩
  | cons call calls ih =>
    obtain ⟨hsettled, hbindings⟩ := ih (call.registryAfter registry)
    obtain ⟨hcall, haction⟩ := call.settled_after registry
    obtain ⟨hcall', haction'⟩ := hcall.run calls
    have hsame : call.binding (registryAfter registry (call :: calls)) =
        call.binding registry := by
      unfold Registration.binding
      rw [← haction, ← haction']
      rfl
    refine ⟨List.forall_mem_cons.2 ⟨hcall', hsettled⟩, ?_⟩
    rw [bindings, List.flatMap_cons, hsame, hbindings]
    rfl

/-- What is bound to a pattern depends on the calls for it only, but for the numbers of
instances. -/
theorem unnumbered_boundBy (registry : ActionRegistry) (calls : List Registration)
    (pattern : ElementPath) :
    (boundBy (bindings registry calls) pattern).map Action.unnumbered =
      (calls.filter fun call => call.pattern = pattern).flatMap fun call =>
        ((call.action? registry).map Action.unnumbered).toList := by
  induction calls generalizing registry with
  | nil => rfl
  | cons call calls ih =>
    have hlater : (fun other : Registration => ((other.action?
        (call.registryAfter registry)).map Action.unnumbered).toList) =
        fun other => ((other.action? registry).map Action.unnumbered).toList := by
      funext other
      rw [Registration.unnumbered_action?]
    rw [bindings, boundBy_append, boundBy_binding, List.map_append, ih, hlater]
    by_cases h : call.pattern = pattern
    · cases ha : call.action? registry <;> simp [h, ha]
    · simp [h]

/-- Registrations that were rearranged give every path the same answer: with the registry that the
first ones left the very same actions, and with the registry that they started from the same but for
the numbers of instances. -/
theorem Rearranges.match? {calls calls' : List Registration} (h : Rearranges calls calls')
    (registry : ActionRegistry) (path : ElementPath) :
    (registered (registryAfter registry calls) calls').match? path =
        (registered registry calls).match? path ∧
      ((registered registry calls').match? path).map (List.map Action.unnumbered) =
        ((registered registry calls).match? path).map (List.map Action.unnumbered) := by
  have answered : ∀ registry calls, Answers (boundBy (bindings registry calls)) path
      ((registered registry calls).match? path) := by
    intro registry calls
    rw [← boundIn_registered]
    exact answers_match? (binding_registered registry calls) path
  constructor
  · obtain ⟨hsettled, hbindings⟩ := settled_registryAfter registry calls
    obtain ⟨-, hbindings'⟩ := of_settled fun call hcall => hsettled call (h.mem hcall)
    have hbound : boundBy (bindings (registryAfter registry calls) calls') =
        boundBy (bindings registry calls) := by
      funext pattern
      rw [hbindings', hbindings, boundBy_flatMap, boundBy_flatMap, h pattern]
    have hanswer := answered (registryAfter registry calls) calls'
    rw [hbound] at hanswer
    exact hanswer.unique (answered registry calls)
  · refine Answers.agree (fun pattern => ?_) (answered registry calls') (answered registry calls)
    rw [unnumbered_boundBy, unnumbered_boundBy, h pattern]

/-- The rule table answers by exact pattern, and else by the widest wildcard pattern. Take any calls
on an empty store. What it answers for a path are the actions bound to exactly the path, in the
order in which they were bound, if there are any; else those of the wildcard pattern with the
longest tail that the path ends in; and nothing exactly where there is neither. There is one such
longest tail wherever there is a tail at all. Rearranging the calls for different patterns changes
no answer, and a name that cannot be resolved leaves the store as it would be without the call. -/
theorem match?_registered (registry : ActionRegistry) (calls : List Registration)
    (path : ElementPath) :
    let bound := boundBy (bindings registry calls)
    (∀ answer, (registered registry calls).match? path = answer ↔ Answers bound path answer) ∧
    (∀ tail, Covers bound path tail →
      ∃ widest, Widest bound path widest ∧ ∀ other, Widest bound path other → other = widest) ∧
    (∀ calls', Rearranges calls calls' →
      (registered (registered registry calls).registry calls').match? path =
          (registered registry calls).match? path ∧
        ((registered registry calls').match? path).map (List.map Action.unnumbered) =
          ((registered registry calls).match? path).map (List.map Action.unnumbered)) ∧
    ∀ earlier later pattern name e, calls = earlier ++ .named pattern name :: later →
      ((registered registry earlier).addByName pattern name).2 = .error e →
      registered registry calls = registered registry (earlier ++ later) := by
  intro bound
  have hbound : boundIn (registered registry calls).rules = bound :=
    boundIn_registered registry calls
  have hbinding := binding_registered registry calls
  have hanswers : Answers bound path ((registered registry calls).match? path) := by
    rw [← hbound]
    exact answers_match? hbinding path
  refine ⟨fun answer => ⟨fun h => h ▸ hanswers, hanswers.unique⟩, fun tail hcovers => ?_,
    fun calls' h => ?_, fun earlier later pattern name e hcalls herror => ?_⟩
  · cases hw : widest? path 0 (registered registry calls).rules with
    | none =>
      rw [← hbound] at hcovers
      exact absurd hcovers (not_covers hbinding hw tail)
    | some actions =>
      obtain ⟨widest, hwidest, -⟩ := exists_widest hbinding hw
      rw [hbound] at hwidest
      exact ⟨widest, hwidest, fun other hother => hwidest.unique hother⟩
  · rw [registry_registered]
    exact h.match? registry path
  · have hsame : (registered registry earlier).register (.named pattern name) =
        registered registry earlier := addByName_error (Prod.ext rfl herror)
    rw [hcalls, registered, List.foldl_append, List.foldl_cons]
    unfold registered at hsame ⊢
    rw [hsame, List.foldl_append]

end RuleStore
end LogConfig
