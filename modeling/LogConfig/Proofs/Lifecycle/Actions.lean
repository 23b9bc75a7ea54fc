import LogConfig.Proofs.Lifecycle.Order

/-
  Actions keep sessions in order, each in the place where the default rules call it. The begin of
  an action pushes at most one object, and what the action does later depends on where this object
  lies then: with the same objects below it as at the begin, its end takes it from the stack, and a
  component with a lifecycle is activated by then (`Action.Keeps`). A logger must be declared
  right above the context; everything else can begin anywhere (`Action.Minds`).
-/

namespace LogConfig

open Session

/-- The end of an element leaves what lay below it on the stack. What it took from the stack was
activated, if it has a lifecycle. -/
structure Session.Releases (context : Ref) (below : List Ref) (s s' : Session) : Prop
    extends s.Leads context s' where
  stack : s'.stack = below
  activated : ∀ r ∈ s.stack, s.graph.variety? r = some .lifecycle → r ∈ below ∨ s'.Activated r

/-- What an action does in its later phases, in a session that comes after the one it began in:
its body keeps the stack, and its end releases what it holds. Both keep the session in order. -/
structure Action.Keeps (context : Ref) (began : Session) (a : Action) (data : Option ActionData)
    (below : List Ref) (held : Option Ref) : Prop where
  body : ∀ name text s, began.Leads context s → s.stack = held.toList ++ below →
    Phase.Comes (fun _ s' => s.Stays context s') (fun _ s' => s.Stays context s')
        (a.body name text data s).1 ∧ (a.body name text data s).2 = data
  finish : ∀ name s, began.Leads context s → s.stack = held.toList ++ below →
    (a.finish name data).Yields s (fun _ s' => s.Releases context below s')
      fun _ s' => s.Releases context below s'

/-- The action keeps sessions in order when it is called for an element that is `depth` deep. The
outermost element holds nothing, and every other at most one object. -/
def Action.Minds (context : Ref) (depth : Nat) (a : Action) : Prop :=
  ∀ name attributes s, s.Orderly context → s.stack.length ≤ max 1 (depth - 1) →
    (a.begin name attributes).Yields s
      (fun data s' => s.Leads context s' ∧ ∃ held : Option Ref,
        s'.stack = held.toList ++ s.stack ∧ (depth = 1 → held = none) ∧
        a.Keeps context s' data s.stack held)
      fun _ s' => s.Stays context s'

variable {context : Ref} {depth : Nat}

theorem Action.Minds.instance {a : Action} (h : a.Minds context depth) (n : Nat) :
    { a with instanceId := n }.Minds context depth := by
  intro name attributes s hs hlength
  refine (h name attributes s hs hlength).mono ?_ fun _ _ he => he
  rintro data s' ⟨hleads, held, hstack, hdepth, hkeeps⟩
  exact ⟨hleads, held, hstack, hdepth, hkeeps.body, hkeeps.finish⟩

theorem Session.Stays.releases {s s' : Session} {below : List Ref} (h : s.Stays context s')
    (hs : s.stack = below) : s.Releases context below s' :=
  ⟨h.toLeads, h.stack.trans hs, fun r hr _ => .inl (by rwa [← hs])⟩

namespace Actions

open Phase

theorem keeps_body {a : Action} {data : Option ActionData} {began : Session} {below : List Ref}
    {held : Option Ref} (hbody : a.body = fun _ _ data s => (.ok () s, data)) :
    ∀ name text s, began.Leads context s → s.stack = held.toList ++ below →
      Comes (fun _ s' => s.Stays context s') (fun _ s' => s.Stays context s')
          (a.body name text data s).1 ∧ (a.body name text data s).2 = data := by
  intro name text s hs _
  rw [hbody]
  exact ⟨.ok hs.orderly.stays, rfl⟩

/-- An action that only begins, and holds nothing. -/
theorem minds_of_begin {a : Action} (hbody : a.body = fun _ _ data s => (.ok () s, data))
    (hfinish : a.finish = fun _ _ => pure ())
    (h : ∀ name attributes s, s.Orderly context →
      (a.begin name attributes).Yields s (fun _ s' => s.Stays context s')
        fun _ s' => s.Stays context s') : a.Minds context depth := by
  intro name attributes s hs _
  refine (h name attributes s hs).mono (fun data s' hstays => ?_) fun _ _ he => he
  refine ⟨hstays.toLeads, none, hstays.stack, fun _ => rfl, keeps_body hbody, ?_⟩
  intro name t ht hstack
  rw [hfinish]
  exact yields_pure (ht.orderly.stays.releases hstack)

theorem stays_of_eq {s s' : Session} (hs : s.Orderly context) (h : s' = s) :
    s.Stays context s' := by
  rw [h]
  exact hs.stays

theorem stays_reporting {s s' : Session} (h : s.Stays context s') (ds : List Remark) :
    s.Stays context (s'.reporting ds) := h.trans (h.orderly.reporting ds)

/-! ### Context -/

theorem configuration_minds : configuration.Minds context depth := by
  intro name attributes s hs _
  refine (beginConfiguration_yields name attributes s).mono ?_ fun _ _ => stays_of_eq hs
  rintro data s' ⟨-, debug, ds, rfl⟩
  have hstays : s.Stays context { s.reporting ds with debug } :=
    hs.stays_of_eq rfl rfl rfl rfl rfl rfl
  refine ⟨hstays.toLeads, none, rfl, fun _ => rfl, keeps_body rfl, ?_⟩
  intro name t ht hstack
  exact yields_modify ((ht.orderly.reporting [.info _]).releases hstack)

theorem contextName_minds : contextName.Minds context depth := by
  intro name attributes s hs _
  refine yields_pure ⟨hs.leads, none, rfl, fun _ => rfl, ?_, ?_⟩
  · intro name text t ht _
    refine ⟨Comes.mono (nameContext_yields name t text none) ?_ fun _ _ =>
      stays_of_eq ht.orderly, rfl⟩
    rintro _ t' ⟨place, c, title, renamed, ds, -, hc, hrename, rfl⟩
    unfold LoggerContext.rename at hrename
    split at hrename
    · cases hrename
    · cases hrename
      exact stays_reporting (ht.orderly.putContext_of_eq
        { c with name := Text.trim title, nameLocked := true } hc rfl rfl) ds
  · intro name t ht hstack
    exact yields_pure (ht.orderly.stays.releases hstack)

theorem conversionRule_minds : conversionRule.Minds context depth := by
  refine minds_of_begin rfl rfl fun name attributes s hs => ?_
  refine (beginConversionRule_yields name attributes s).mono ?_ fun _ _ => stays_of_eq hs
  rintro data s' ⟨-, place, c, word, converter, ds, hc, rfl⟩
  exact stays_reporting (hs.putContext_of_eq (c.putConversionRule word converter) hc rfl rfl) ds

theorem definingAll_stays (scope : PropertyScope) (entries : List (String × String)) {s : Session}
    (hs : s.Orderly context) : s.Stays context (definingAll scope s entries) := by
  unfold definingAll
  induction entries generalizing s with
  | nil => exact hs.stays
  | cons entry rest ih =>
    have defined : s.Stays context (s.defineProperty entry.1 entry.2) := by
      unfold defineProperty
      split
      · exact hs.stays
      · exact hs.stays_of_eq rfl rfl rfl rfl rfl rfl
    have first : s.Stays context (defineIn scope s entry.1 entry.2) := by
      unfold defineIn
      cases scope with
      | session => exact defined
      | context =>
        refine defined.trans ?_
        dsimp only
        unfold modifyContext
        split
        · next place c hc => exact defined.orderly.putContext_of_eq _ hc rfl rfl
        · exact defined.orderly.stays
    exact first.trans (ih first.orderly)

theorem property_minds : property.Minds context depth := by
  refine minds_of_begin rfl rfl fun name attributes s hs => ?_
  refine (beginProperty_yields name attributes s).mono ?_ ?_
  · rintro data s' ⟨-, scope, entries, ds, rfl⟩
    exact stays_reporting (definingAll_stays scope entries hs) ds
  · rintro e s' ⟨ds, rfl⟩
    exact hs.reporting ds

/-! ### Loggers -/

/-- The end of a logger finds it on top of the stack. -/
theorem finishPushed_releases (what name : String) {began s : Session} {r : Ref}
    {below : List Ref} (hr : began.graph.variety? r = some .logger)
    (hs : began.Leads context s) (hstack : s.stack = r :: below) :
    (finishPushed what name (some (.component r))).Yields s
      (fun _ s' => s.Releases context below s')
      fun _ s' => s.Releases context below s' := by
  refine (finishPushed_yields name s what r).mono (fun _ s' hs' => ?_) nofun
  have hlogger := hs.variety?_eq hr
  cases hs' with
  | taken _ =>
    refine ⟨hs.orderly.popLogger hstack hlogger, ?_, fun k hk hlife => ?_⟩
    · show s.stack.tail = below
      rw [hstack]
      rfl
    · rw [hstack] at hk
      rcases List.mem_cons.1 hk with rfl | hk
      · rw [hlogger] at hlife
        cases hlife
      · exact .inl hk
  | left hne => exact absurd (by rw [top?, hstack]; rfl) hne

/-- A logger is pushed right above the context. -/
theorem pushLogger_leads {s : Session} (hs : s.Orderly context) (hstack : s.stack = [context])
    {r : Ref} (hr : s.graph.variety? r = some .logger) : s.Leads context (s.push r) :=
  hs.push (fun _ => hstack) fun hnot => absurd hr hnot

theorem logger_minds : logger.Minds context 2 := by
  intro name attributes s hs hlength
  have hstack := hs.stack_eq hlength
  refine (beginLogger_yields name attributes s).mono ?_ ?_
  · rintro data s' ⟨title, declared, r, leveled, graph, ds, hlogger, hleveled, hgraph, rfl, rfl⟩
    obtain ⟨hdeclared, hr⟩ := hs.hasLogger hlogger
    have adjusted := hdeclared.trans (hdeclared.orderly.adjust hleveled)
    have settled := adjusted.trans (adjusted.orderly.adjust hgraph)
    have hr' : graph.variety? r = some .logger := by
      refine (adjusted.orderly.adjust hgraph).variety?_eq ?_
      exact (hdeclared.orderly.adjust hleveled).variety?_eq hr
    have pushed := pushLogger_leads settled.orderly hstack hr'
    have recorded := (pushed.orderly.reporting ds)
    refine ⟨(settled.toLeads.trans pushed).trans recorded.toLeads, some r, rfl, nofun,
      keeps_body rfl, fun name t ht htstack => ?_⟩
    exact finishPushed_releases "logger" name hr' ht htstack
  · rintro e s' (⟨ds, rfl⟩ | ⟨title, declared, r, leveled, ds, hlogger, hleveled, rfl, -⟩)
    · exact hs.reporting ds
    · obtain ⟨hdeclared, -⟩ := hs.hasLogger hlogger
      exact stays_reporting (hdeclared.trans (hdeclared.orderly.adjust hleveled)) ds

theorem rootLogger_minds : rootLogger.Minds context 2 := by
  intro name attributes s hs hlength
  have hstack := hs.stack_eq hlength
  refine (beginRoot_yields name attributes s).mono ?_ fun _ _ => stays_of_eq hs
  rintro data s' ⟨place, c, graph, ds, hc, hgraph, rfl, rfl⟩
  have settled := hs.adjust hgraph
  have hr : graph.variety? c.root = some .logger := settled.variety?_eq
    (hs.logger_of_context? (hs.context?_eq hc).2 List.mem_cons_self)
  have pushed := pushLogger_leads settled.orderly hstack hr
  refine ⟨(settled.toLeads.trans pushed).trans (pushed.orderly.reporting ds).toLeads,
    some c.root, rfl, nofun, keeps_body rfl, fun name t ht htstack => ?_⟩
  exact finishPushed_releases "root logger" name hr ht htstack

theorem level_minds : level.Minds context depth := by
  refine minds_of_begin rfl rfl fun name attributes s hs => ?_
  refine (beginLevel_yields name attributes s).mono ?_ fun _ _ => stays_of_eq hs
  rintro data s' ⟨-, r, graph, ds, -, hgraph, rfl⟩
  exact stays_reporting (hs.adjust hgraph) ds

/-! ### Appenders -/

/-- The end of a component with a lifecycle activates it and takes it from the stack. -/
theorem activate_releases {began s : Session} {r : Ref} {below : List Ref}
    (hr : began.graph.variety? r = some .lifecycle) (hs : began.Leads context s)
    (hstack : s.stack = r :: below) : s.Releases context below (s.activated r).pop := by
  obtain ⟨hleads, hactivated⟩ := hs.orderly.activate hstack (hs.variety?_eq hr)
  refine ⟨hleads, ?_, fun k hk _ => ?_⟩
  · show (s.activated r).stack.tail = below
    rw [stack_activated, hstack]
    rfl
  · rw [hstack] at hk
    rcases List.mem_cons.1 hk with rfl | hk
    · exact .inr hactivated
    · exact .inl hk

theorem appender_minds (hdepth : depth ≠ 1) : appender.Minds context depth := by
  intro name attributes s hs _
  refine (beginAppender_yields name attributes s).mono ?_ ?_
  · rintro data s' ⟨className, c, ds, hc, rfl, hs'⟩
    rw [hs.classes] at hc
    obtain ⟨hchildren, hlife⟩ := ClassRegistry.instanceOfKind?_builtins hc
    obtain ⟨created, hr⟩ := hs.create hchildren (hlife (by decide))
    have leads : s.Leads context s' ∧ s'.stack = s.graph.next :: s.stack ∧
        s'.graph.variety? s.graph.next = some .lifecycle := by
      rcases hs' with rfl | ⟨title, named, hnamed, rfl⟩
      · exact ⟨created.trans (created.orderly.reporting ds).toLeads, rfl, hr⟩
      · have set := created.orderly.setFromText List.mem_cons_self
          (Graph.get?_add_next s.graph c) hnamed
        have kept := set.orderly.keepAppender title List.mem_cons_self (set.variety?_eq hr)
        exact ⟨(created.trans (set.trans kept).toLeads).trans
          (kept.orderly.reporting ds).toLeads, rfl, set.variety?_eq hr⟩
    obtain ⟨hleads, hstack, hr'⟩ := leads
    refine ⟨hleads, some s.graph.next, hstack, fun h => absurd h hdepth, keeps_body rfl, ?_⟩
    intro name t ht htstack
    refine (finishAppender_yields name t s.graph.next).mono (fun _ t' ht' => ?_) nofun
    cases ht' with
    | taken _ => exact activate_releases hr' ht htstack
    | left hne => exact absurd (by rw [top?_activated, top?, htstack]; rfl) hne
  · rintro e s' (rfl | ⟨className, c, ds, hc, rfl⟩)
    · exact hs.stays
    · rw [hs.classes] at hc
      exact stays_reporting (hs.add (ClassRegistry.instanceOfKind?_builtins hc).1) ds

theorem appenderRef_minds : appenderRef.Minds context depth := by
  refine minds_of_begin rfl rfl fun name attributes s hs => ?_
  refine (beginAppenderRef_yields name attributes s).mono ?_ fun _ _ => stays_of_eq hs
  rintro data s' ⟨-, target, c, title, appender, graph, ds, htop, hc, hcollects, -, hbag, ha, rfl⟩
  obtain ⟨below, hstack⟩ := List.head?_eq_some_iff.1 (show s.stack.head? = some target from htop)
  have hmem : target ∈ s.stack := by
    rw [hstack]
    exact List.mem_cons_self
  -- the target is a logger, so no appender is on the stack
  have hcustom : c.variety ≠ .custom := fun he =>
    hs.variety?_ne_custom hmem ((Graph.variety?_of_get? hc).trans (congrArg some he))
  have htarget : s.graph.variety? target = some .logger := by
    rw [Graph.variety?_of_get? hc, Component.variety_of_collects hcustom hcollects]
  have hbelow := hs.loggers [] target below hstack htarget
  obtain ⟨hlife, hplace⟩ := hs.bag _ (Entries.mem_of_find? hbag)
  have hactivated : s.Activated appender := by
    rcases hplace with hplace | hplace
    · rw [hstack, hbelow] at hplace
      rcases List.mem_cons.1 hplace with rfl | hplace
      · rw [htarget] at hlife
        cases hlife
      · rw [List.mem_singleton.1 hplace, hs.variety?_context] at hlife
        cases hlife
    · exact hplace
  exact stays_reporting (hs.attach hmem hactivated ha) ds

/-- A component that is delivered to a parent on the stack was activated before. -/
theorem delivered_releases {began s s' : Session} {child : Ref} {below : List Ref}
    {parent? : Option Ref} (hr : began.graph.variety? child = some .lifecycle)
    (hs : began.Leads context s) (hstack : s.stack = child :: below)
    (hparent : ∀ parent, parent? = some parent → parent ∈ below)
    (h : s.Delivered child parent? s') : s.Releases context below s' := by
  have released := activate_releases hr hs hstack
  cases h with
  | left hne => exact absurd (by rw [top?, hstack]; rfl) hne
  | attached _ hp ha =>
    have hactivated := (hs.orderly.activate hstack (hs.variety?_eq hr)).2
    have attached := released.orderly.attach (by rw [released.stack]; exact hparent _ hp)
      hactivated ha
    exact ⟨released.toLeads.trans attached.toLeads, attached.stack.trans released.stack,
      fun k hk hlife => (released.activated k hk hlife).imp id attached.activated⟩

theorem layout_minds (hdepth : depth ≠ 1) : layout.Minds context depth := by
  intro name attributes s hs _
  refine (beginLayout_yields name attributes s).mono ?_ fun _ _ => stays_of_eq hs
  rintro data s' ⟨className, c, hc, rfl, rfl⟩
  rw [hs.classes] at hc
  obtain ⟨hchildren, hlife⟩ := ClassRegistry.instanceOfKind?_builtins hc
  obtain ⟨created, hr⟩ := hs.create hchildren (hlife (by decide))
  refine ⟨created, some s.graph.next, rfl, fun h => absurd h hdepth, keeps_body rfl, ?_⟩
  intro name t ht htstack
  refine (finishLayout_yields name t s.graph.next).mono (fun _ t' ht' => ?_) fun _ t' ht' => ?_
  · refine delivered_releases hr ht htstack (fun parent hparent => ?_) ht'
    rw [htstack] at hparent
    exact List.mem_of_head? hparent
  · rw [ht'.2]
    exact activate_releases hr ht htstack

/-! ### Nested elements -/

theorem mem_of_top? {s : Session} {r : Ref} (h : s.top? = some r) : r ∈ s.stack :=
  List.mem_of_head? h

theorem param_minds : param.Minds context depth := by
  refine minds_of_begin rfl rfl fun name attributes s hs => ?_
  refine (beginParam_yields name attributes s).mono ?_ fun _ _ => stays_of_eq hs
  rintro data s' ⟨-, ⟨ds, rfl⟩ | ⟨target, c, c', title, text, htop, hc, hset, rfl⟩⟩
  · exact hs.reporting ds
  · exact hs.setFromText (mem_of_top? htop) hc hset

theorem nestedComponent_minds : nestedComponent.Minds context depth := by
  intro name attributes s hs hlength
  refine (beginNestedComponent_yields name attributes s).mono ?_ fun _ _ => stays_of_eq hs
  rintro data s' ⟨parent, c, kind, className, child, htop, hc, hkind, hchild, rfl, rfl⟩
  have hmem := mem_of_top? htop
  have hcustom : c.variety ≠ .custom := fun he =>
    hs.variety?_ne_custom hmem ((Graph.variety?_of_get? hc).trans (congrArg some he))
  obtain ⟨hcontext, hkinds⟩ := Component.childKind?_spec hcustom hkind
  rw [hs.classes] at hchild
  obtain ⟨hchildren, hlife⟩ := ClassRegistry.instanceOfKind?_builtins hchild
  obtain ⟨created, hr⟩ := hs.create hchildren (hlife hkinds)
  refine ⟨created, some s.graph.next, rfl, fun hdepth => ?_, keeps_body rfl, ?_⟩
  · -- the only object on the stack is the context, which holds no components
    rw [hdepth] at hlength
    rw [hs.stack_eq hlength, List.mem_singleton] at hmem
    rw [hmem] at hc
    have hv := (Graph.variety?_of_get? hc).symm.trans hs.variety?_context
    exact absurd (Option.some.inj hv) hcontext
  · intro name t ht htstack
    refine (finishNestedComponent_yields name t parent s.graph.next _).mono
      (fun _ t' ht' => ?_) fun _ t' ht' => ?_
    · refine delivered_releases hr ht htstack (fun parent' hp => ?_) ht'
      cases hp
      exact hmem
    · rw [ht'.2]
      exact activate_releases hr ht htstack

theorem nestedProperty_minds : nestedProperty.Minds context depth := by
  intro name attributes s hs _
  refine (nestedProperty_begin_yields name attributes s).mono ?_ fun _ _ => stays_of_eq hs
  rintro data s' ⟨parent, htop, rfl, rfl⟩
  refine ⟨hs.leads, none, rfl, fun _ => rfl, ?_, ?_⟩
  · intro name text t ht htstack
    refine ⟨Comes.mono (setFromBody_yields name t text parent) ?_ fun _ _ =>
      stays_of_eq ht.orderly, rfl⟩
    rintro _ t' (⟨ds, rfl⟩ | ⟨c, c', value, hc, hset, rfl⟩)
    · exact ht.orderly.reporting ds
    · refine ht.orderly.setFromText ?_ hc hset
      rw [htstack]
      exact mem_of_top? htop
  · intro name t ht htstack
    exact yields_pure (ht.orderly.stays.releases htstack)

end Actions
end LogConfig
