import LogConfig.Proofs.Lifecycle.Graph

/-
  Sessions in order. In a session in order the context lies at the bottom of the stack, a logger
  only right above it, and a component with a lifecycle waits there for its activation: it was not
  activated so far, and no component holds it. Components that were activated are as their
  activation left them.

  The lemmas say which changes keep a session in order (`Session.Leads`), one for each way in which
  the actions change a session.
-/

namespace LogConfig

/-- What the call made of the component: it is active, or it refused and is as it was. -/
def Activation.result? (x : Activation) : Option Component :=
  match x.outcome? with
  | some (.ok active) => some active
  | _ => x.graph.get? x.component

namespace Session

/-- The activation of the component was called. -/
def Activated (s : Session) (r : Ref) : Prop := ∃ x ∈ s.activations, x.component = r

structure Orderly (context : Ref) (s : Session) : Prop where
  graph : s.graph.WellFormed context
  classes : s.classes = ClassRegistry.builtins
  requests : s.ruleRequests = []
  bottom : [context] <:+ s.stack
  distinct : s.stack.Nodup
  stacked : ∀ r ∈ s.stack, r = context ∨ s.graph.variety? r = some .logger ∨
    s.graph.variety? r = some .lifecycle
  loggers : ∀ above r below, s.stack = above ++ r :: below →
    s.graph.variety? r = some .logger → below = [context]
  /-- A component on the stack is still to be activated, and held by none. -/
  pending : ∀ r ∈ s.stack, s.graph.variety? r = some .lifecycle →
    ¬ s.Activated r ∧ s.graph.Detached r
  /-- A component was held by none when it was activated, and is as the activation left it. -/
  settled : ∀ x ∈ s.activations, x.graph.Detached x.component ∧
    s.graph.variety? x.component = some .lifecycle ∧ s.graph.get? x.component = x.result?
  once : (s.activations.map Activation.component).Nodup
  bag : ∀ entry ∈ s.appenderBag, s.graph.variety? entry.2 = some .lifecycle ∧
    (entry.2 ∈ s.stack ∨ s.Activated entry.2)

/-- The second session, in order too, comes after the first: components keep their variety, and
activations were only added. -/
structure Leads (context : Ref) (s s' : Session) : Prop where
  orderly : s'.Orderly context
  varieties : ∀ r, s.graph.variety? r ≠ none → s'.graph.variety? r = s.graph.variety? r
  activations : s.activations <:+ s'.activations

/-- The second session comes after the first, with the same stack. -/
structure Stays (context : Ref) (s s' : Session) : Prop extends s.Leads context s' where
  stack : s'.stack = s.stack

variable {context : Ref} {s s' s'' : Session}

theorem Orderly.leads (h : s.Orderly context) : s.Leads context s :=
  ⟨h, fun _ _ => rfl, List.suffix_refl _⟩

theorem Orderly.stays (h : s.Orderly context) : s.Stays context s := ⟨h.leads, rfl⟩

theorem Leads.trans (h : s.Leads context s') (h' : s'.Leads context s'') : s.Leads context s'' where
  orderly := h'.orderly
  varieties r hr := by
    rw [h'.varieties r (by rw [h.varieties r hr]; exact hr), h.varieties r hr]
  activations := h.activations.trans h'.activations

theorem Stays.trans (h : s.Stays context s') (h' : s'.Stays context s'') : s.Stays context s'' :=
  ⟨h.toLeads.trans h'.toLeads, h'.stack.trans h.stack⟩

theorem Leads.variety?_eq (h : s.Leads context s') {r : Ref} {v : Variety}
    (hr : s.graph.variety? r = some v) : s'.graph.variety? r = some v := by
  rw [h.varieties r (by rw [hr]; nofun), hr]

theorem Leads.activated (h : s.Leads context s') {r : Ref} (hr : s.Activated r) :
    s'.Activated r := by
  obtain ⟨x, hx, he⟩ := hr
  exact ⟨x, h.activations.subset hx, he⟩

/-- Nothing else of a session matters for its order. -/
theorem Orderly.stays_of_eq (h : s.Orderly context) (hgraph : s'.graph = s.graph)
    (hstack : s'.stack = s.stack) (hobjects : s'.objects = s.objects)
    (hactivations : s'.activations = s.activations) (hrequests : s'.ruleRequests = s.ruleRequests)
    (hclasses : s'.classes = s.classes) : s.Stays context s' := by
  have hactivated : s'.Activated = s.Activated := by
    unfold Activated
    rw [hactivations]
  have hbag : s'.appenderBag = s.appenderBag := by
    unfold appenderBag
    rw [hobjects]
  refine ⟨⟨⟨?_, ?_, ?_, ?_, ?_, ?_, ?_, ?_, ?_, ?_, ?_⟩, fun r _ => by rw [hgraph],
    hactivations ▸ List.suffix_refl _⟩, hstack⟩
  · rw [hgraph]; exact h.graph
  · rw [hclasses]; exact h.classes
  · rw [hrequests]; exact h.requests
  · rw [hstack]; exact h.bottom
  · rw [hstack]; exact h.distinct
  · rw [hstack, hgraph]; exact h.stacked
  · rw [hstack, hgraph]; exact h.loggers
  · rw [hstack, hgraph, hactivated]; exact h.pending
  · rw [hactivations, hgraph]; exact h.settled
  · rw [hactivations]; exact h.once
  · rw [hbag, hstack, hgraph, hactivated]; exact h.bag

/-! ### Activation -/

/-- Activating a component with a lifecycle changes it in its place, unless it refuses, and is
noted. -/
theorem activated_spec {r : Ref} (hr : s.graph.variety? r = some .lifecycle) :
    ∃ c c', s.graph.get? r = some c ∧ c.ChangedTo c' [] ∧
      (⟨r, s.graph⟩ : Activation).result? = some c' ∧
      (s.activated r).graph = s.graph.put r c' ∧
      (s.activated r).activations = ⟨r, s.graph⟩ :: s.activations := by
  obtain ⟨c, hc, hlife⟩ := Graph.variety?_eq_some.1 hr
  have hactivates : c.activate?.isSome :=
    (Component.isSome_activate?_iff (by rw [hlife]; nofun)).2 hlife
  obtain ⟨outcome, hcalled⟩ := Option.isSome_iff_exists.1 hactivates
  have hbind : (s.graph.get? r).bind Component.activate? = some outcome := by
    rw [hc, Option.bind_some, hcalled]
  have houtcome : (⟨r, s.graph⟩ : Activation).outcome? = some outcome := hbind
  unfold activated Activation.result?
  rw [hbind, houtcome]
  cases outcome with
  | ok active =>
    exact ⟨c, active, hc, Component.changedTo_of_activate? hlife hcalled, rfl, rfl, rfl⟩
  | error reason =>
    refine ⟨c, c, hc, ⟨by rw [hlife]; nofun, rfl, fun k hk => .inl hk⟩, hc, ?_, rfl⟩
    rw [Graph.put_self hc]
    rfl

theorem activated_rest (s : Session) (r : Ref) : (s.activated r).objects = s.objects ∧
    (s.activated r).ruleRequests = s.ruleRequests ∧ (s.activated r).classes = s.classes := by
  unfold activated
  split
  · exact ⟨rfl, rfl, rfl⟩
  · exact ⟨rfl, rfl, rfl⟩
  · exact ⟨rfl, rfl, rfl⟩

namespace Orderly

theorem reporting (h : s.Orderly context) (ds : List Remark) :
    s.Stays context (s.reporting ds) := h.stays_of_eq rfl rfl rfl rfl rfl rfl

/-! ### What lies on the stack -/

theorem variety?_context (h : s.Orderly context) : s.graph.variety? context = some .context := by
  obtain ⟨c, hc, -⟩ := h.graph.loggers
  exact Graph.variety?_of_context? hc

theorem context_mem (h : s.Orderly context) : context ∈ s.stack :=
  h.bottom.subset List.mem_cons_self

theorem stack_eq (h : s.Orderly context) (hlength : s.stack.length ≤ 1) : s.stack = [context] :=
  (h.bottom.eq_of_length_le hlength).symm

/-- The place of the context is the bottom of the stack. -/
theorem context?_eq (h : s.Orderly context) {place : Ref} {c : LoggerContext}
    (hc : s.context? = some (place, c)) : place = context ∧ s.graph.context? context = some c := by
  obtain ⟨hlast, hplace⟩ := context?_eq_some hc
  obtain ⟨above, habove⟩ := h.bottom
  rw [← habove, List.getLast?_append] at hlast
  cases hlast
  exact ⟨rfl, hplace⟩

theorem logger_of_context? (h : s.Orderly context) {c : LoggerContext}
    (hc : s.graph.context? context = some c) {r : Ref}
    (hr : r ∈ c.root :: c.loggers.map Prod.snd) : s.graph.variety? r = some .logger := by
  obtain ⟨c', hc', hloggers⟩ := h.graph.loggers
  rw [hc] at hc'
  cases hc'
  exact hloggers r hr

theorem variety?_activated (h : s.Orderly context) {r : Ref} (hr : s.Activated r) :
    s.graph.variety? r = some .lifecycle := by
  obtain ⟨x, hx, rfl⟩ := hr
  exact (h.settled x hx).2.1

/-- Nothing on the stack was activated. -/
theorem not_activated (h : s.Orderly context) {r : Ref} (hr : r ∈ s.stack) : ¬ s.Activated r := by
  intro hactivated
  exact (h.pending r hr (h.variety?_activated hactivated)).1 hactivated

theorem not_activated_of_variety? (h : s.Orderly context) {r : Ref} {v : Variety}
    (hr : s.graph.variety? r = some v) (hv : v ≠ .lifecycle) : ¬ s.Activated r := by
  intro hactivated
  rw [h.variety?_activated hactivated] at hr
  exact hv (Option.some.inj hr).symm

theorem variety?_ne_none (h : s.Orderly context) {r : Ref} (hr : r ∈ s.stack) :
    s.graph.variety? r ≠ none := by
  rcases h.stacked r hr with rfl | hv | hv
  · rw [h.variety?_context]; nofun
  · rw [hv]; nofun
  · rw [hv]; nofun

theorem variety?_ne_custom (h : s.Orderly context) {r : Ref} (hr : r ∈ s.stack) :
    s.graph.variety? r ≠ some .custom := by
  rcases h.stacked r hr with rfl | hv | hv
  · rw [h.variety?_context]; nofun
  · rw [hv]; nofun
  · rw [hv]; nofun

/-! ### Changing a component -/

/-- A component that was not activated can be changed, if it keeps its variety and takes only
activated components for further children. -/
theorem put (h : s.Orderly context) {r : Ref} {c c' : Component} (added : List Ref)
    (hc : s.graph.get? r = some c) (hvariety : c'.variety = c.variety)
    (hchildren : ∀ k ∈ c'.children, k ∈ c.children ∨ k ∈ added)
    (hadded : ∀ k ∈ added, s.Activated k) (hfree : ¬ s.Activated r)
    (hloggers : ∀ cx, c' = .context cx → ∀ k ∈ cx.root :: cx.loggers.map Prod.snd,
      s.graph.variety? k = some .logger) :
    s.Stays context { s with graph := s.graph.put r c' } := by
  have hvarieties := Graph.variety?_put hc hvariety
  have hgraph : (s.graph.put r c').WellFormed context := by
    refine h.graph.put added hc hvariety hchildren (fun k hk => ?_) hloggers
    rw [h.variety?_activated (hadded k hk)]
    nofun
  refine ⟨⟨⟨hgraph, h.classes, h.requests, h.bottom, h.distinct, ?_, ?_, ?_, ?_, h.once, ?_⟩,
    fun k _ => congrFun hvarieties k, List.suffix_refl _⟩, rfl⟩
  · rw [hvarieties]
    exact h.stacked
  · rw [hvarieties]
    exact h.loggers
  · rw [hvarieties]
    intro k hk hlife
    obtain ⟨hnot, hdetached⟩ := h.pending k hk hlife
    refine ⟨hnot, fun holder hmem => ?_⟩
    rcases Graph.mem_childrenOf_put hc hchildren hmem with hmem | hmem
    · exact hdetached holder hmem
    · exact hnot (hadded k hmem)
  · rw [hvarieties]
    intro x hx
    obtain ⟨hdetached, hlife, hresult⟩ := h.settled x hx
    refine ⟨hdetached, hlife, ?_⟩
    rw [Graph.get?_put_of_ne fun he => hfree ⟨x, hx, he⟩]
    exact hresult
  · rw [hvarieties]
    exact h.bag

theorem change (h : s.Orderly context) {r : Ref} {c c' : Component} (added : List Ref)
    (hc : s.graph.get? r = some c) (hchanged : c.ChangedTo c' added)
    (hadded : ∀ k ∈ added, s.Activated k) (hfree : ¬ s.Activated r) :
    s.Stays context { s with graph := s.graph.put r c' } := by
  refine h.put added hc hchanged.variety hchanged.children hadded hfree fun cx he => ?_
  have := hchanged.variety
  rw [he] at this
  exact absurd this.symm hchanged.plain

/-- The property of an object on the stack can be set. -/
theorem setFromText (h : s.Orderly context) {r : Ref} {c c' : Component} {name text : String}
    (hr : r ∈ s.stack) (hc : s.graph.get? r = some c) (hset : c.setFromText name text = .ok c') :
    s.Stays context { s with graph := s.graph.put r c' } := by
  have hcustom : c.variety ≠ .custom := fun he =>
    h.variety?_ne_custom hr ((Graph.variety?_of_get? hc).trans (congrArg some he))
  exact h.change [] hc (Component.changedTo_of_setFromText hcustom hset) nofun (h.not_activated hr)

/-- An activated component can be attached to an object on the stack. -/
theorem attach (h : s.Orderly context) {parent child : Ref} {graph : Graph}
    (hparent : parent ∈ s.stack) (hchild : s.Activated child)
    (ha : s.graph.Attached parent child graph) : s.Stays context { s with graph } := by
  obtain ⟨c, c', hc, hchanged, rfl⟩ := ha.changedTo (h.variety?_ne_custom hparent)
  refine h.change [child] hc hchanged (fun k hk => ?_) (h.not_activated hparent)
  rw [List.mem_singleton.1 hk]
  exact hchild

/-- The settings of a logger can be changed. -/
theorem adjust (h : s.Orderly context) {r : Ref} {graph : Graph} (ha : s.graph.Adjusted r graph) :
    s.Stays context { s with graph } := by
  have logger : ∀ {l l' : Logger}, s.graph.logger? r = some l → l'.appenders = l.appenders →
      s.Stays context { s with graph := s.graph.put r (.logger l') } := by
    intro l l' hl happenders
    have hfree := h.not_activated_of_variety? (Graph.variety?_of_logger? hl) (by nofun)
    refine h.change [] (Graph.get?_of_logger? hl) ⟨nofun, rfl, fun k hk => .inl ?_⟩
      nofun hfree
    rwa [Component.children, happenders] at hk
  cases ha with
  | kept => exact h.stays
  | level hl _ => exact logger hl rfl
  | additive hl => exact logger hl rfl

/-- The context can be changed, as long as what it has for loggers is loggers. -/
theorem putContext (h : s.Orderly context) {place : Ref} {c : LoggerContext} (c' : LoggerContext)
    (hc : s.context? = some (place, c))
    (hloggers : ∀ k ∈ c'.root :: c'.loggers.map Prod.snd, s.graph.variety? k = some .logger) :
    s.Stays context { s with graph := s.graph.put place (.context c') } := by
  obtain ⟨rfl, hc⟩ := h.context?_eq hc
  refine h.put [] (Graph.get?_of_context? hc) rfl (fun k hk => .inl hk) nofun
    (h.not_activated h.context_mem) fun cx he => ?_
  cases he
  exact hloggers

/-- The context can be changed beside its loggers. -/
theorem putContext_of_eq (h : s.Orderly context) {place : Ref} {c : LoggerContext}
    (c' : LoggerContext) (hc : s.context? = some (place, c)) (hroot : c'.root = c.root)
    (hl : c'.loggers = c.loggers) :
    s.Stays context { s with graph := s.graph.put place (.context c') } := by
  refine h.putContext c' hc ?_
  rw [hroot, hl]
  exact fun k hk => h.logger_of_context? (h.context?_eq hc).2 hk

/-! ### Adding a component -/

theorem add (h : s.Orderly context) {c : Component} (hc : c.children = []) :
    s.Stays context { s with graph := s.graph.add c } := by
  have hvariety : ∀ {k : Ref} {v : Variety}, s.graph.variety? k = some v →
      (s.graph.add c).variety? k = some v := by
    intro k v hk
    rw [Graph.variety?_add c (by rw [hk]; nofun), hk]
  have hback : ∀ {k : Ref}, s.graph.variety? k ≠ none →
      (s.graph.add c).variety? k = s.graph.variety? k := fun hk => Graph.variety?_add c hk
  have hchildren := Graph.childrenOf_add (g := s.graph) hc
  refine ⟨⟨⟨h.graph.add hc, h.classes, h.requests, h.bottom, h.distinct, ?_, ?_, ?_, ?_, h.once,
    ?_⟩, fun k hk => hback hk, List.suffix_refl _⟩, rfl⟩
  · intro k hk
    show k = context ∨ (s.graph.add c).variety? k = _ ∨ (s.graph.add c).variety? k = _
    rw [hback (h.variety?_ne_none hk)]
    exact h.stacked k hk
  · intro above k below hst hk
    have hmem : k ∈ s.stack := by
      rw [show s.stack = above ++ k :: below from hst]
      simp
    rw [show (s.graph.add c).variety? k = _ from hback (h.variety?_ne_none hmem)] at hk
    exact h.loggers above k below hst hk
  · intro k hk hlife
    rw [show (s.graph.add c).variety? k = _ from hback (h.variety?_ne_none hk)] at hlife
    obtain ⟨hnot, hdetached⟩ := h.pending k hk hlife
    refine ⟨hnot, fun holder hmem => hdetached holder ?_⟩
    rwa [hchildren] at hmem
  · intro x hx
    obtain ⟨hdetached, hlife, hresult⟩ := h.settled x hx
    obtain ⟨held, hheld, -⟩ := Graph.variety?_eq_some.1 hlife
    refine ⟨hdetached, hvariety hlife, ?_⟩
    rw [← hresult, hheld]
    exact Graph.get?_add_of_some hheld c
  · intro entry hentry
    obtain ⟨hlife, hplace⟩ := h.bag entry hentry
    exact ⟨hvariety hlife, hplace⟩

/-- A logger can be asked for: it is there, or it is added to the context. -/
theorem hasLogger (h : s.Orderly context) {name : String} {graph : Graph} {r : Ref}
    (hl : s.HasLogger name graph r) :
    s.Stays context { s with graph } ∧ graph.variety? r = some .logger := by
  have declared : ∀ {place : Ref} {c : LoggerContext} {l : Logger},
      s.context? = some (place, c) → l.appenders = [] →
      s.Stays context { s with graph := (s.graph.addLogger place c name l).1 } ∧
        (s.graph.addLogger place c name l).1.variety? s.graph.next = some .logger := by
    intro place c l hc happenders
    obtain ⟨rfl, hcx⟩ := h.context?_eq hc
    have added := h.add (c := .logger l) happenders
    have hnew := Graph.variety?_add_next s.graph (.logger l)
    have hc' : ({ s with graph := s.graph.add (.logger l) } : Session).context? =
        some (place, c) := by
      obtain ⟨hlast, -⟩ := context?_eq_some hc
      show s.stack.getLast?.bind _ = _
      rw [hlast, Option.bind_some]
      show ((s.graph.add (.logger l)).context? place).map _ = _
      unfold Graph.context?
      rw [Graph.get?_add_of_some (Graph.get?_of_context? hcx)]
      rfl
    have changed := added.orderly.putContext { c with
      loggers := Entries.insert name s.graph.next c.loggers } hc' (fun k hk => by
        rcases List.mem_cons.1 hk with rfl | hk
        · exact added.variety?_eq (h.logger_of_context? hcx List.mem_cons_self)
        · obtain ⟨entry, hentry, rfl⟩ := List.mem_map.1 hk
          rcases Entries.mem_insert hentry with rfl | hentry
          · exact hnew
          · exact added.variety?_eq (h.logger_of_context? hcx
              (List.mem_cons_of_mem _ (List.mem_map_of_mem hentry))))
    exact ⟨added.trans changed, changed.variety?_eq hnew⟩
  cases hl with
  | @known place r c hc hfind =>
    exact ⟨h.stays, h.logger_of_context? (h.context?_eq hc).2 (LoggerContext.mem_of_find? hfind)⟩
  | plain hc _ => exact declared hc rfl
  | ofClass hc _ hprototype =>
    rw [h.classes] at hprototype
    exact declared hc (ClassRegistry.instanceOfKind?_builtins hprototype).1

/-! ### The stack -/

theorem push (h : s.Orderly context) {r : Ref}
    (hlogger : s.graph.variety? r = some .logger → s.stack = [context])
    (hlife : s.graph.variety? r ≠ some .logger → s.graph.variety? r = some .lifecycle ∧
      r ∉ s.stack ∧ ¬ s.Activated r ∧ s.graph.Detached r) :
    s.Leads context (s.push r) := by
  have hnew : r ∉ s.stack := by
    by_cases hr : s.graph.variety? r = some .logger
    · rw [hlogger hr, List.mem_singleton]
      rintro rfl
      rw [h.variety?_context] at hr
      cases hr
    · exact (hlife hr).2.1
  refine ⟨⟨h.graph, h.classes, h.requests, h.bottom.trans (List.suffix_cons _ _),
    List.nodup_cons.2 ⟨hnew, h.distinct⟩, ?_, ?_, ?_, h.settled, h.once, ?_⟩, fun _ _ => rfl,
    List.suffix_refl _⟩
  · intro k hk
    rcases List.mem_cons.1 hk with rfl | hk
    · by_cases hr : s.graph.variety? k = some .logger
      · exact .inr (.inl hr)
      · exact .inr (.inr (hlife hr).1)
    · exact h.stacked k hk
  · intro above k below hst hk
    cases above with
    | nil =>
      obtain ⟨rfl, rfl⟩ := List.cons.inj hst
      exact hlogger hk
    | cons first above =>
      exact h.loggers above k below (List.cons.inj hst).2 hk
  · intro k hk hkind
    rcases List.mem_cons.1 hk with rfl | hk
    · exact (hlife (by rw [show s.graph.variety? k = _ from hkind]; nofun)).2.2
    · exact h.pending k hk hkind
  · intro entry hentry
    obtain ⟨hkind, hplace⟩ := h.bag entry hentry
    exact ⟨hkind, hplace.imp (List.mem_cons_of_mem _) id⟩

/-- A new component with a lifecycle can be added and pushed. -/
theorem create (h : s.Orderly context) {c : Component} (hc : c.children = [])
    (hlife : c.variety = .lifecycle) :
    s.Leads context { s with graph := s.graph.add c, stack := s.graph.next :: s.stack } ∧
      (s.graph.add c).variety? s.graph.next = some .lifecycle := by
  have added := h.add hc
  have hnew : (s.graph.add c).variety? s.graph.next = some .lifecycle := by
    rw [Graph.variety?_add_next, hlife]
  refine ⟨added.toLeads.trans (added.orderly.push (r := s.graph.next) (fun hl => ?_) fun _ => ?_),
    hnew⟩
  · rw [show (s.graph.add c).variety? s.graph.next = _ from hl] at hnew
    cases hnew
  · refine ⟨hnew, fun hmem => ?_, fun hmem => ?_, fun holder hmem => ?_⟩
    · exact h.variety?_ne_none hmem s.graph.variety?_next
    · have hused := h.variety?_activated hmem
      rw [s.graph.variety?_next] at hused
      cases hused
    · rw [show (s.graph.add c).childrenOf = _ from Graph.childrenOf_add hc] at hmem
      exact h.graph.detached s.graph.variety?_next holder hmem

/-- An appender on the stack can be kept under a name. -/
theorem keepAppender (h : s.Orderly context) (name : String) {r : Ref} (hr : r ∈ s.stack)
    (hlife : s.graph.variety? r = some .lifecycle) : s.Stays context (s.keepAppender name r) := by
  refine ⟨⟨{ h with bag := ?_ }, fun _ _ => rfl, List.suffix_refl _⟩, rfl⟩
  intro entry hentry
  rw [appenderBag_keepAppender] at hentry
  rcases Entries.mem_insert hentry with rfl | hentry
  · exact ⟨hlife, .inl hr⟩
  · exact h.bag entry hentry

/-- What lies below an object other than the context is in order. -/
theorem below (h : s.Orderly context) {r : Ref} {below : List Ref} (hst : s.stack = r :: below)
    (hr : r ≠ context) : [context] <:+ below ∧ below.Nodup ∧ r ∉ below ∧
      (∀ k ∈ below, k ∈ s.stack) ∧ ∀ above k rest, below = above ++ k :: rest →
        s.graph.variety? k = some .logger → rest = [context] := by
  have hdistinct := h.distinct
  rw [hst, List.nodup_cons] at hdistinct
  refine ⟨?_, hdistinct.2, hdistinct.1, fun k hk => ?_, fun above k rest he hk => ?_⟩
  · have hbottom := h.bottom
    rw [hst] at hbottom
    rcases List.suffix_cons_iff.1 hbottom with he | hsuffix
    · exact absurd (List.cons.inj he).1.symm hr
    · exact hsuffix
  · rw [hst]
    exact List.mem_cons_of_mem _ hk
  · exact h.loggers (r :: above) k rest (by rw [hst, he]; rfl) hk

/-- A logger on top of the stack can be taken from it. -/
theorem popLogger (h : s.Orderly context) {r : Ref} {below : List Ref}
    (hst : s.stack = r :: below) (hr : s.graph.variety? r = some .logger) :
    s.Leads context s.pop := by
  have hne : r ≠ context := by
    rintro rfl
    rw [h.variety?_context] at hr
    cases hr
  obtain ⟨hbottom, hdistinct, -, hmem, hloggers⟩ := h.below hst hne
  have hpop : s.pop.stack = below := by
    show s.stack.tail = below
    rw [hst]
    rfl
  rw [← hpop] at hbottom hdistinct hmem hloggers
  refine ⟨⟨h.graph, h.classes, h.requests, hbottom, hdistinct, fun k hk => h.stacked k (hmem k hk),
    hloggers, fun k hk => h.pending k (hmem k hk), h.settled, h.once, fun entry hentry => ?_⟩,
    fun _ _ => rfl, List.suffix_refl _⟩
  obtain ⟨hlife, hplace⟩ := h.bag entry hentry
  refine ⟨hlife, hplace.imp (fun hplace => ?_) id⟩
  rw [hst] at hplace
  rcases List.mem_cons.1 hplace with he | hplace
  · rw [he, hr] at hlife
    cases hlife
  · rw [hpop]
    exact hplace

/-- A component on top of the stack is taken from it once it was activated, if no component held it
then and it is as the activation left it. -/
theorem retire (h : s.Orderly context) {r : Ref} {below : List Ref} (hst : s.stack = r :: below)
    (hr : s.graph.variety? r = some .lifecycle) {graph : Graph} (hdetached : graph.Detached r)
    (hresult : s.graph.get? r = (⟨r, graph⟩ : Activation).result?) :
    s.Leads context { s with stack := below, activations := ⟨r, graph⟩ :: s.activations } := by
  have hne : r ≠ context := by
    rintro rfl
    rw [h.variety?_context] at hr
    cases hr
  have hmem : r ∈ s.stack := by
    rw [hst]
    exact List.mem_cons_self
  obtain ⟨hbottom, hdistinct, hnotin, hsub, hloggers⟩ := h.below hst hne
  have hactivated : ∀ k, Activated { s with stack := below, activations := ⟨r, graph⟩ ::
      s.activations } k ↔ k = r ∨ s.Activated k := by
    intro k
    unfold Activated
    simp [eq_comm]
  refine ⟨⟨h.graph, h.classes, h.requests, hbottom, hdistinct, fun k hk => h.stacked k (hsub k hk),
    hloggers, ?_, ?_, ?_, ?_⟩, fun _ _ => rfl, List.suffix_cons _ _⟩
  · intro k hk hlife
    obtain ⟨hnot, hfree⟩ := h.pending k (hsub k hk) hlife
    refine ⟨fun hcalled => ?_, hfree⟩
    rcases (hactivated k).1 hcalled with rfl | hcalled
    · exact hnotin hk
    · exact hnot hcalled
  · intro x hx
    rcases List.mem_cons.1 hx with rfl | hx
    · exact ⟨hdetached, hr, hresult⟩
    · exact h.settled x hx
  · rw [List.map_cons, List.nodup_cons]
    exact ⟨fun hx => h.not_activated hmem (List.mem_map.1 hx), h.once⟩
  · intro entry hentry
    obtain ⟨hlife, hplace⟩ := h.bag entry hentry
    refine ⟨hlife, ?_⟩
    rw [hactivated]
    rcases hplace with hplace | hplace
    · rw [hst] at hplace
      rcases List.mem_cons.1 hplace with he | hplace
      · exact .inr (.inl he)
      · exact .inl hplace
    · exact .inr (.inr hplace)

/-- A component on top of the stack can be activated and taken from it. -/
theorem activate (h : s.Orderly context) {r : Ref} {below : List Ref}
    (hst : s.stack = r :: below) (hr : s.graph.variety? r = some .lifecycle) :
    s.Leads context (s.activated r).pop ∧ (s.activated r).pop.Activated r := by
  have hmem : r ∈ s.stack := by
    rw [hst]
    exact List.mem_cons_self
  obtain ⟨hfree, hdetached⟩ := h.pending r hmem hr
  obtain ⟨c, c', hc, hchanged, hresult, hgraph, hactivations⟩ := activated_spec hr
  obtain ⟨hobjects, hrequests, hclasses⟩ := activated_rest s r
  have changed := h.change [] hc hchanged nofun hfree
  have retired := changed.orderly.retire hst (changed.variety?_eq hr) hdetached
    ((Graph.get?_put_self hc c').trans hresult.symm)
  have hpop : (s.activated r).pop.stack = below := by
    show (s.activated r).stack.tail = below
    rw [stack_activated, hst]
    rfl
  have same : Stays context _ (s.activated r).pop :=
    retired.orderly.stays_of_eq hgraph hpop hobjects hactivations hrequests hclasses
  refine ⟨(changed.toLeads.trans retired).trans same.toLeads, ⟨r, s.graph⟩, ?_, rfl⟩
  rw [show (s.activated r).pop.activations = _ from hactivations]
  exact List.mem_cons_self

end Orderly
end Session
end LogConfig
