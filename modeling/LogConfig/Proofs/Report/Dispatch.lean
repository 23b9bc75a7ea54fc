import LogConfig.Proofs.Dispatch.History
import LogConfig.Proofs.Report.Disclosure

/-
  Dispatch discloses what goes wrong in it. The phases of one element are followed through the
  walk's scenes: each call is noted with the session it was made in, so whether it succeeded can
  be read off the record, and the rules that it asked for can be looked up in the rule store
  (`Call.Fulfilled`). From scene to scene diagnostics are only added, and as long as none of the
  weight of a warning is among them every call is fulfilled and nothing is signalled
  (`Scene.Reaches`).
-/

namespace LogConfig

/-! ### Rules asked for -/

namespace RuleStore

/-- The instance of the action that a request names is bound to the pattern it names. -/
def Installed (store : RuleStore) (request : ElementPath × String) : Prop :=
  ∃ a actions, Entries.find? (Text.trim request.2) store.registry.instances = some a ∧
    boundTo? request.1 store.rules = some actions ∧ a ∈ actions

theorem boundTo?_bind_self (pattern : ElementPath) (a : Action)
    (rules : List (ElementPath × List Action)) :
    ∃ actions, boundTo? pattern (bind pattern a rules) = some actions ∧ a ∈ actions := by
  induction rules with
  | nil => exact ⟨[a], by simp [bind, boundTo?], List.mem_cons_self⟩
  | cons rule rest ih =>
    obtain ⟨p, actions⟩ := rule
    unfold bind
    split
    · next hp => exact ⟨actions ++ [a], by simp [boundTo?, hp], by simp⟩
    · next hp =>
      rw [boundTo?, if_neg hp]
      exact ih

/-- What is bound stays bound. -/
theorem boundTo?_bind (pattern : ElementPath) (a : Action) {path : ElementPath} {b : Action}
    {rules : List (ElementPath × List Action)} {actions : List Action}
    (h : boundTo? path rules = some actions) (hb : b ∈ actions) :
    ∃ actions', boundTo? path (bind pattern a rules) = some actions' ∧ b ∈ actions' := by
  induction rules with
  | nil => cases h
  | cons rule rest ih =>
    obtain ⟨p, bound⟩ := rule
    unfold boundTo? at h
    unfold bind
    split at h
    · next hp =>
      cases h
      split
      · exact ⟨actions ++ [a], by rw [boundTo?, if_pos hp], List.mem_append_left _ hb⟩
      · exact ⟨actions, by rw [boundTo?, if_pos hp], hb⟩
    · next hp =>
      split
      · exact ⟨actions, by rw [boundTo?, if_neg hp, h], hb⟩
      · rw [boundTo?, if_neg hp]
        exact ih h

/-- A name resolves to the instance kept under it, and the instances of other names are kept. -/
theorem resolve_ok {reg reg' : ActionRegistry} {name : String} {a : Action}
    (h : reg.resolve name = (reg', .ok a)) :
    Entries.find? (Text.trim name) reg'.instances = some a ∧
      ∀ key b, Entries.find? key reg.instances = some b →
        Entries.find? key reg'.instances = some b := by
  unfold ActionRegistry.resolve at h
  dsimp only at h
  cases hi : Entries.find? (Text.trim name) reg.instances with
  | some found =>
    rw [hi] at h
    cases h
    exact ⟨hi, fun _ _ hk => hk⟩
  | none =>
    rw [hi] at h
    cases ht : Entries.find? (Text.trim name) reg.templates with
    | none =>
      rw [ht] at h
      cases h
    | some template =>
      rw [ht] at h
      cases h
      refine ⟨Entries.find?_insert_self _ _ _, fun key b hk => ?_⟩
      have hne : key ≠ Text.trim name := by
        rintro rfl
        rw [hi] at hk
        cases hk
      exact (Entries.find?_insert_of_ne hne _ _).trans hk

theorem resolve_error {reg reg' : ActionRegistry} {name : String} {e : ConfigError}
    (h : reg.resolve name = (reg', .error e)) : reg' = reg := by
  unfold ActionRegistry.resolve at h
  dsimp only at h
  split at h
  · cases h
  · split at h
    · cases h
    · cases h
      rfl

theorem addByName_ok {store store' : RuleStore} {pattern : ElementPath} {name : String}
    (h : store.addByName pattern name = (store', .ok ())) :
    store'.Installed (pattern, name) ∧
      ∀ request, store.Installed request → store'.Installed request := by
  unfold addByName at h
  rcases hr : store.registry.resolve name with ⟨reg, e | a⟩
  · rw [hr] at h
    cases h
  · rw [hr] at h
    cases h
    obtain ⟨hfound, hkept⟩ := resolve_ok hr
    obtain ⟨actions, hbound, ha⟩ := boundTo?_bind_self pattern a store.rules
    refine ⟨⟨a, actions, hfound, hbound, ha⟩, ?_⟩
    rintro request ⟨b, actions', hb, hbound', hmem⟩
    obtain ⟨actions'', hbound'', hmem'⟩ := boundTo?_bind pattern a hbound' hmem
    exact ⟨b, actions'', hkept _ _ hb, hbound'', hmem'⟩

theorem addByName_error {store store' : RuleStore} {pattern : ElementPath} {name : String}
    {e : ConfigError} (h : store.addByName pattern name = (store', .error e)) : store' = store := by
  unfold addByName at h
  rcases hr : store.registry.resolve name with ⟨reg, e' | a⟩
  · rw [hr] at h
    cases h
    rw [resolve_error hr]
  · rw [hr] at h
    cases h

/-- Every rule binds some action. -/
def Binding (store : RuleStore) : Prop := ∀ rule ∈ store.rules, rule.2 ≠ []

theorem Binding.add {store : RuleStore} (h : store.Binding) (pattern : ElementPath) (a : Action) :
    (store.add pattern a).Binding := by
  have bound : ∀ rules : List (ElementPath × List Action), (∀ rule ∈ rules, rule.2 ≠ []) →
      ∀ rule ∈ bind pattern a rules, rule.2 ≠ [] := by
    intro rules hrules rule hrule
    induction rules with
    | nil =>
      rw [List.mem_singleton.1 hrule]
      exact List.cons_ne_nil _ _
    | cons first rest ih =>
      obtain ⟨p, actions⟩ := first
      have hrest := fun rule hr => hrules rule (List.mem_cons_of_mem _ hr)
      unfold bind at hrule
      split at hrule
      · rcases List.mem_cons.1 hrule with rfl | hrule
        · simp
        · exact hrest rule hrule
      · rcases List.mem_cons.1 hrule with rfl | hrule
        · exact hrules _ List.mem_cons_self
        · exact ih hrest hrule
  exact bound store.rules h

theorem Binding.addByName {store : RuleStore} (h : store.Binding) (pattern : ElementPath)
    (name : String) : (store.addByName pattern name).1.Binding := by
  unfold RuleStore.addByName
  rcases store.registry.resolve name with ⟨registry, e | a⟩
  · exact h
  · exact Binding.add (show ({ store with registry } : RuleStore).Binding from h) pattern a

end RuleStore

/-! ### Calls -/

/-- The session in which a call succeeded. -/
def Call.after? : Call → Option Session
  | .begin a name attributes s =>
    match a.begin name attributes s with
    | .ok _ s' => some s'
    | .error .. => none
  | .body a name text data s =>
    match (a.body name text data s).1 with
    | .ok _ s' => some s'
    | .error .. => none
  | .finish a name data s =>
    match a.finish name data s with
    | .ok _ s' => some s'
    | .error .. => none

/-- The call succeeded, and all rules that were asked for by then are installed. -/
def Call.Fulfilled (store : RuleStore) (call : Call) : Prop :=
  ∃ s, call.after? = some s ∧ ∀ request ∈ s.ruleRequests, store.Installed request

theorem Call.after?_eq {call : Call} (h : call.signal? = none) : call.after? = some call.left := by
  unfold signal? at h
  unfold after? left
  cases call with
  | begin a name attributes s =>
    dsimp only at h ⊢
    cases hb : a.begin name attributes s with
    | ok data s' => rfl
    | error signal s' => rw [hb] at h; cases h
  | body a name text data s =>
    dsimp only at h ⊢
    cases hb : (a.body name text data s).1 with
    | ok _ s' => rfl
    | error signal s' => rw [hb] at h; cases h
  | finish a name data s =>
    dsimp only at h ⊢
    cases hf : a.finish name data s with
    | ok _ s' => rfl
    | error signal s' => rw [hf] at h; cases h

/-- Where an action discloses what goes wrong in it, so does every call of it, and all that it
signals is a failure. -/
theorem Action.Discloses.call {call : Call} (h : call.action.Discloses) :
    call.session.Discloses call.left ∧
      ∀ {signal}, call.signal? = some signal → ∃ e, signal = .failed e := by
  cases call with
  | begin a name attributes s =>
    have hcomes := h.begin name attributes s
    exact ⟨hcomes.left (fun _ _ hs' => hs') fun _ _ hs' => hs', Phase.Comes.signal? hcomes⟩
  | body a name text data s =>
    have hcomes := h.body name text data s
    exact ⟨hcomes.left (fun _ _ hs' => hs') fun _ _ hs' => hs', hcomes.signal?⟩
  | finish a name data s =>
    have hcomes := h.finish name data s
    exact ⟨hcomes.left (fun _ _ hs' => hs') fun _ _ hs' => hs', Phase.Comes.signal? hcomes⟩

theorem Call.Fulfilled.mono {store store' : RuleStore} {call : Call} (h : call.Fulfilled store)
    (hkept : ∀ request, store.Installed request → store'.Installed request) :
    call.Fulfilled store' := by
  obtain ⟨s, hs, hrequests⟩ := h
  exact ⟨s, hs, fun request hr => hkept request (hrequests request hr)⟩

namespace Scene

variable {sc sc' sc'' : Scene}

/-- All calls are fulfilled and all activations succeeded. -/
structure Flawless (sc : Scene) : Prop where
  calls : ∀ call ∈ sc.calls, call.Fulfilled sc.rules
  activations : ∀ x ∈ sc.session.activations, x.Succeeded

/-- All actions that are bound or can be bound disclose what goes wrong in them, and every rule
binds some. -/
structure Candid (sc : Scene) : Prop where
  actions : sc.rules.All Action.Discloses
  binding : sc.rules.Binding

/-- Phases that gave these signals lead from one scene to the other. Diagnostics were only added,
and if the second scene is clean then nothing was signalled and it is flawless as the first. -/
structure Reaches (sc sc' : Scene) (signals : List Signal) : Prop where
  candid : sc'.Candid
  diagnostics : sc.session.diagnostics <+: sc'.session.diagnostics
  silent : sc'.session.Clean → signals = []
  flawless : sc'.session.Clean → sc.Flawless → sc'.Flawless

theorem Reaches.refl (h : sc.Candid) : sc.Reaches sc [] :=
  ⟨h, List.prefix_refl _, fun _ => rfl, fun _ hf => hf⟩

theorem Reaches.trans {signals later : List Signal} (h : sc.Reaches sc' signals)
    (h' : sc'.Reaches sc'' later) : sc.Reaches sc'' (signals ++ later) where
  candid := h'.candid
  diagnostics := h.diagnostics.trans h'.diagnostics
  silent hclean := by
    rw [h.silent (hclean.of_prefix h'.diagnostics), h'.silent hclean]
    rfl
  flawless hclean hf := h'.flawless hclean (h.flawless (hclean.of_prefix h'.diagnostics) hf)

/-- What binding rules that were asked for leads to. -/
structure Binds (sc : Scene) (requests : List (ElementPath × String)) (sc' : Scene) : Prop where
  candid : sc'.Candid
  diagnostics : sc.session.diagnostics <+: sc'.session.diagnostics
  activations : sc'.session.activations = sc.session.activations
  calls : sc'.calls = sc.calls
  kept : ∀ request, sc.rules.Installed request → sc'.rules.Installed request
  installed : sc'.session.Clean → ∀ request ∈ requests, sc'.rules.Installed request

theorem binds_installRule (h : sc.Candid) (request : ElementPath × String) :
    sc.Binds [request] (sc.installRule request) := by
  have hactions := h.actions.addByName (fun _ n ha => ha.instance n) request.1 request.2
  have hbinding := h.binding.addByName request.1 request.2
  unfold installRule
  rcases ha : sc.rules.addByName request.1 request.2 with ⟨rules, e | _⟩
  · rw [ha] at hactions hbinding
    refine ⟨⟨hactions, hbinding⟩, ⟨[_], rfl⟩, rfl, rfl, ?_, ?_⟩
    · rw [RuleStore.addByName_error ha]
      exact fun _ hr => hr
    · exact fun hclean => absurd hclean (Session.not_clean_record _ rfl)
  · rw [ha] at hactions hbinding
    obtain ⟨hnew, hkept⟩ := RuleStore.addByName_ok ha
    refine ⟨⟨hactions, hbinding⟩, List.prefix_refl _, rfl, rfl, hkept, fun _ other hother => ?_⟩
    rw [List.mem_singleton.1 hother]
    exact hnew

theorem binds_foldl (h : sc.Candid) (requests : List (ElementPath × String)) :
    sc.Binds requests (requests.foldl installRule sc) := by
  induction requests generalizing sc with
  | nil =>
    exact ⟨h, List.prefix_refl _, rfl, rfl, fun _ hr => hr,
      fun _ _ hr => absurd hr List.not_mem_nil⟩
  | cons request rest ih =>
    have first := binds_installRule h request
    have later := ih first.candid
    rw [List.foldl_cons]
    refine ⟨later.candid, first.diagnostics.trans later.diagnostics,
      later.activations.trans first.activations, later.calls.trans first.calls,
      fun other hother => later.kept other (first.kept other hother), fun hclean other hother => ?_⟩
    rcases List.mem_cons.1 hother with rfl | hother
    · exact later.kept _ (first.installed (hclean.of_prefix later.diagnostics) _
        List.mem_cons_self)
    · exact later.installed hclean other hother

/-! ### One phase -/

/-- A phase that succeeded is fulfilled once the rules it asked for are installed. -/
theorem reaches_settle_none (h : sc.Candid) {call : Call} {session : Session}
    (hcall : call.after? = some session) (hd : sc.session.Discloses session) (a : Action)
    (phase : String) : sc.Reaches ((sc.note call).settle a phase none session) [] := by
  have start : ({ sc.note call with session := session.dropRuleRequests } : Scene).Candid :=
    ⟨h.actions, h.binding⟩
  have bound := binds_foldl start session.ruleRequests
  refine ⟨bound.candid, hd.records.starts.trans bound.diagnostics, fun _ => rfl,
    fun hclean hf => ⟨fun other hother => ?_, fun x hx => ?_⟩⟩
  · unfold settle at hother
    rw [bound.calls] at hother
    rcases List.mem_cons.1 hother with rfl | hother
    · exact ⟨session, hcall, bound.installed hclean⟩
    · exact (hf.calls other hother).mono bound.kept
  · unfold settle at hx
    rw [bound.activations] at hx
    have hbefore : session.Clean := Session.Clean.of_prefix hclean bound.diagnostics
    rcases hd.activations hbefore x hx with hx | hx
    · exact hf.activations x hx
    · exact hx

/-- A phase that failed is recorded. -/
theorem reaches_settle_failed (h : sc.Candid) (call : Call) {session : Session}
    (hd : sc.session.Discloses session) (a : Action) (phase : String) (e : ConfigError) :
    sc.Reaches ((sc.note call).settle a phase (some (.failed e)) session) [.failed e] := by
  let recorded := session.record
    ((Diagnostic.error e.code (a.name ++ " failed in " ++ phase ++ "()")).withCause e.message)
  have start : ({ sc.note call with session := recorded.dropRuleRequests } : Scene).Candid :=
    ⟨h.actions, h.binding⟩
  have bound := binds_foldl start recorded.ruleRequests
  have hnot : ¬ ((sc.note call).settle a phase (some (.failed e)) session).session.Clean :=
    fun hclean => Session.not_clean_record session rfl
      (Session.Clean.of_prefix (s := recorded) hclean bound.diagnostics)
  have hrecorded : sc.session.Discloses recorded := hd.trans (session.discloses_record rfl)
  exact ⟨bound.candid, hrecorded.records.starts.trans bound.diagnostics,
    fun hclean => absurd hclean hnot, fun hclean => absurd hclean hnot⟩

theorem reaches_after (h : sc.Candid) {call : Call} (hcall : call.session = sc.session)
    (hd : call.action.Discloses) : sc.Reaches (sc.after call) call.signal?.toList := by
  obtain ⟨hdiscloses, hfailed⟩ := hd.call
  rw [hcall] at hdiscloses
  unfold after
  cases hs : call.signal? with
  | none => exact reaches_settle_none h (Call.after?_eq hs) hdiscloses _ _
  | some signal =>
    obtain ⟨e, rfl⟩ := hfailed hs
    exact reaches_settle_failed h call hdiscloses _ _ e

/-! ### The phases of an element -/

theorem kept_reaches :
    Kept Action.Discloses fun sc calls sc' =>
      sc.Candid → sc.Reaches sc' (calls.filterMap Call.signal?) where
  refl _ h := .refl h
  trans h h' hsc := by
    rw [List.filterMap_append]
    exact (h hsc).trans (h' (h hsc).candid)
  call hcall hfollows hsc := by
    rw [List.filterMap_eq_flatMap_toList, List.flatMap_singleton]
    exact reaches_after hsc hcall hfollows.action

theorem actionsFor_candid (h : sc.Candid) {implicit : List ImplicitAction}
    (hi : ∀ rule ∈ implicit, rule.action.Discloses) (path : ElementPath)
    (attributes : Attributes) :
    sc.Reaches (sc.actionsFor implicit path attributes).1 [] ∧
      (∀ a ∈ (sc.actionsFor implicit path attributes).2, a.Discloses) ∧
      ((sc.actionsFor implicit path attributes).1.session.Clean →
        (sc.actionsFor implicit path attributes).2 ≠ []) := by
  unfold actionsFor
  cases hm : sc.rules.match? path with
  | some actions =>
    refine ⟨.refl h, h.actions.match? hm, fun _ => ?_⟩
    obtain ⟨pattern, hmem, -⟩ := RuleStore.mem_of_match? hm
    exact h.binding _ hmem
  | none =>
    dsimp only
    split
    · next rule hfind =>
      refine ⟨.refl h, fun a ha => ?_, fun _ => List.cons_ne_nil _ _⟩
      rw [List.mem_singleton.1 ha]
      exact hi rule (List.mem_of_find?_eq_some hfind)
    · have hnot := fun message =>
        Session.not_clean_record sc.session (d := .warning .unmatchedElement message) rfl
      exact ⟨⟨⟨h.actions, h.binding⟩, ⟨[_], rfl⟩, fun _ => rfl,
          fun hclean => absurd hclean (hnot _)⟩,
        fun a ha => absurd ha List.not_mem_nil, fun hclean => absurd hclean (hnot _)⟩

/-- The begin phase of the first action is called first. -/
theorem beginAll_first (sc : Scene) (name : String) (attributes : Attributes) (a : Action)
    (rest : List Action) :
    ∃ later, (sc.beginAll name attributes (a :: rest)).1.calls =
      later ++ .begin a name attributes sc.session :: sc.calls := by
  obtain ⟨begins, -, hcalls⟩ :=
    beginAll_calls name attributes rest (sc.after (.begin a name attributes sc.session))
  rw [calls_after] at hcalls
  rw [beginAll_cons sc name attributes a rest rfl]
  exact ⟨begins.reverse, hcalls⟩

end Scene
end LogConfig
