import LogConfig.Proofs.Invariants.Names
import LogConfig.Proofs.Invariants.Weaving

/-
  Cycles of components. A session attaches a component in two ways. At the end of its own element,
  when it was taken from the stack, it goes to an object that is on the stack still; and a reference
  attaches an appender to the object on top of the stack. Neither closes a cycle, as long as the
  appender is not on the stack itself (`Actions.builtins_weave`). A reference to an appender that is
  on the stack still stands inside of it (`Call.Encloses`). It may close a cycle
  (`Configurator.course_cyclic`), and nothing else does: every cycle passes something that such a
  reference attached (`Configurator.course_acyclic`).
-/

namespace LogConfig

/-- The call is to attach an appender to an object inside of it: it refers to an appender that is on
the stack still. -/
structure Call.Encloses (call : Call) (holder appender : Ref) : Prop where
  refers : ∃ name, call.Refers name appender
  top : call.session.top? = some holder
  unfinished : appender ∈ call.session.stack

/-- The appender that the attribute `ref` names, at the beginning of an element. -/
def Call.reference? : Call → Option Ref
  | .begin _ element attributes s =>
    match Phase.requiredAttribute element attributes "ref" s with
    | .ok name s => s.appender? name
    | .error .. => none
  | _ => none

theorem Call.Encloses.reference?_eq {call : Call} {holder appender : Ref}
    (h : call.Encloses holder appender) : call.reference? = some appender := by
  obtain ⟨⟨name, hrefers⟩, -, -⟩ := h
  cases hrefers with
  | mk hbegin hname happender => simp only [reference?, hname, happender]

/-- The phases of the action keep a session woven. -/
structure Action.Weaves (context : Ref) (g₀ : Graph) (loose : Ref → Ref → Prop) (a : Action) :
    Prop where
  begin : ∀ element attributes (s : Session), s.Settled context → s.Woven context g₀ loose →
    (∀ u v, (Call.begin a element attributes s).Encloses u v → loose u v) →
    s.Weaves context g₀ loose (Phase.left (a.begin element attributes s)) ∧
      ∀ data s', a.begin element attributes s = .ok data s' → s'.Places context g₀ a data
  body : ∀ element text data (s : Session), a.Tied data → s.Woven context g₀ loose →
    s.Weaves context g₀ loose (Phase.left (a.body element text data s).1)
  finish : ∀ element data (s : Session), a.Tied data → s.Woven context g₀ loose →
    s.Places context g₀ a data →
    s.Weaves context g₀ loose (Phase.left (a.finish element data s))

namespace Actions

open Phase Session LogConfig.Graph

variable {context : Ref} {g₀ : Graph} {loose : Ref → Ref → Prop} {s s' : Session}

theorem weaves_instance {a : Action} (h : a.Weaves context g₀ loose) (n : Nat) :
    { a with instanceId := n }.Weaves context g₀ loose := by
  have tied : ∀ data, { a with instanceId := n }.Tied data → a.Tied data :=
    fun data => ((passage_proceeds context).copies a n data).1
  refine ⟨fun element attributes s hsettled hs hloose => ?_,
    fun element text data s htied => h.body element text data s (tied data htied),
    fun element data s htied => h.finish element data s (tied data htied)⟩
  refine h.begin element attributes s hsettled hs fun u v hencloses => hloose u v ?_
  obtain ⟨⟨name, hrefers⟩, htop, hunfinished⟩ := hencloses
  refine ⟨⟨name, ?_⟩, htop, hunfinished⟩
  cases hrefers with
  | mk hbegin hname happender => exact .mk hbegin hname happender

/-! ### Phases that neither set nor attach -/

theorem weaves_kept (h : s.Woven context g₀ loose) (hbecomes : s.BecomesIf False False s')
    (hstack : s'.stack = s.stack) : s.Weaves context g₀ loose s' :=
  h.calm hbecomes (.lower ⟨[], hstack⟩)

theorem body_weaves {a : Action} {data : Option ActionData} (htied : a.Tied data)
    (h : s.Woven context g₀ loose) {element text : String}
    (hbecomes : s.BecomesIf False False (left (a.body element text data s).1)) :
    s.Weaves context g₀ loose (left (a.body element text data s).1) := by
  obtain ⟨⟨pushed, hreleases⟩, -⟩ := htied
  exact weaves_kept h hbecomes (hreleases.body_keeps element text s)

theorem finish_weaves {a : Action} {data : Option ActionData} (htied : a.Tied data)
    (h : s.Woven context g₀ loose) {element : String}
    (hbecomes : s.BecomesIf False False (left (a.finish element data s))) :
    s.Weaves context g₀ loose (left (a.finish element data s)) := by
  obtain ⟨⟨pushed, hreleases⟩, -⟩ := htied
  refine h.calm hbecomes (.lower ?_)
  rw [hreleases.finish_releases element s]
  exact release_suffix pushed s.stack

theorem weaves_of_quiet {a : Action} (hconfined : a.ConfinedIf False False)
    {Q : String → Attributes → Session → Session → Prop}
    {E : Session → ConfigError → Session → Prop}
    (hkeeps : ∀ name attributes, (a.begin name attributes).Keeps)
    (hyields : ∀ name attributes s, (a.begin name attributes).Yields s
      (fun data s' => data = none ∧ Q name attributes s s') (E s)) :
    a.Weaves context g₀ loose := by
  refine ⟨fun element attributes s _ hs _ => ⟨?_, fun data s' hbegin => ?_⟩,
    fun element text data s htied hs => body_weaves htied hs (hconfined.body element text data s),
    fun element data s htied hs _ => finish_weaves htied hs (hconfined.finish element data s)⟩
  · exact weaves_kept hs (hconfined.begin element attributes s) (hkeeps element attributes s)
  · rw [((hyields element attributes s).of_ok hbegin).1]
    trivial

/-! ### Phases that set a property -/

theorem weaves_reporting (h : s.Woven context g₀ loose) (ds : List Remark) :
    s.Weaves context g₀ loose (s.reporting ds) :=
  weaves_kept h (becomes_reporting s ds) rfl

theorem param_weaves : param.Weaves context g₀ loose := by
  refine ⟨fun element attributes s _ hs _ => ⟨?_, fun data s' hbegin => ?_⟩,
    fun _ _ _ _ _ hs => hs.weaves, fun _ _ _ _ hs _ => hs.weaves⟩
  · refine (beginParam_yields element attributes s).left (fun _ s' hs' => ?_) fun _ s' he => ?_
    · obtain ⟨-, ⟨ds, rfl⟩ | ⟨target, c, c', name, text, -, hc, hset, rfl⟩⟩ := hs'
      · exact weaves_reporting hs ds
      · exact hs.setFromText hc hset
    · rw [he]
      exact hs.weaves
  · rw [((beginParam_yields element attributes s).of_ok hbegin).1]
    trivial

theorem setFromBody_weaves (element text : String) (data : Option ActionData)
    (hs : s.Woven context g₀ loose) :
    s.Weaves context g₀ loose (left (setFromBody element text data s)) := by
  unfold setFromBody
  split
  · next parent =>
    refine (setFromBody_yields element s text parent).left (fun _ s' hs' => ?_) fun _ s' he => ?_
    · obtain ⟨ds, rfl⟩ | ⟨c, c', value, hc, hset, rfl⟩ := hs'
      · exact weaves_reporting hs ds
      · exact hs.setFromText hc hset
    · rw [he]
      exact hs.weaves
  · exact hs.weaves

theorem nestedProperty_weaves : nestedProperty.Weaves context g₀ loose := by
  refine ⟨fun element attributes s _ hs _ => ⟨?_, fun data s' hbegin => ?_⟩,
    fun element text data _ _ hs => setFromBody_weaves element text data hs,
    fun _ _ _ _ hs _ => hs.weaves⟩
  · refine (nestedProperty_begin_yields element attributes s).left (fun _ s' hs' => ?_)
      fun _ s' he => ?_
    · obtain ⟨parent, -, -, rfl⟩ := hs'
      exact hs.weaves
    · rw [he]
      exact hs.weaves
  · obtain ⟨parent, -, rfl, -⟩ := (nestedProperty_begin_yields element attributes s).of_ok hbegin
    trivial

/-! ### Loggers -/

/-- The handle for a name of a logger is one of a logger of the context. -/
theorem isLoggerOf_of_hasLogger (hs : s.Settled context) {name : String} {graph : Graph} {r : Ref}
    (h : s.HasLogger name graph r) : graph.IsLoggerOf context r := by
  have added : ∀ {place : Ref} {c : LoggerContext} (l : Logger),
      s.context? = some (place, c) →
      (s.graph.addLogger place c name l).1.IsLoggerOf context s.graph.next := by
    intro place c l hcontext
    obtain rfl := hs.context?_eq hcontext
    have hplace := get?_of_context? (context?_eq_some hcontext).2
    refine ⟨{ c with loggers := Entries.insert name s.graph.next c.loggers }, ?_, ?_⟩
    · exact context?_eq_some_iff.2 (get?_put_self (get?_add_of_some hplace _) _)
    · have hkept := Entries.mem_of_find? (Entries.find?_insert_self name s.graph.next c.loggers)
      exact List.mem_cons_of_mem _ (List.mem_map_of_mem hkept)
  cases h with
  | known hcontext hfind =>
    obtain rfl := hs.context?_eq hcontext
    exact ⟨_, (context?_eq_some hcontext).2, LoggerContext.mem_of_find? hfind⟩
  | plain hcontext _ => exact added _ hcontext
  | ofClass hcontext _ _ => exact added _ hcontext

/-- A logger of the context that is put on the stack was not made. -/
theorem restacks_logger {graph : Graph} {r : Ref} (hgrows : s.graph.Grows context [] graph)
    (hr : graph.IsLoggerOf context r) (hstack : s'.stack = r :: s.stack)
    (hused : s'.graph.variety? r ≠ none) : s.Restacks context g₀ s' :=
  .push hstack (fun hmade => hmade.plain ((hgrows.loggers r hmade.used).1 hr)) hused

theorem logger_weaves : logger.Weaves context g₀ loose := by
  refine ⟨fun element attributes s hsettled hs _ => ⟨?_, fun data s' hbegin => ?_⟩,
    fun element text data s htied hs =>
      body_weaves htied hs (logger_confined.body element text data s),
    fun element data s htied hs _ =>
      finish_weaves htied hs (logger_confined.finish element data s)⟩
  · have hbecomes : s.BecomesIf False False (left (beginLogger element attributes s)) :=
      logger_confined.begin element attributes s
    show s.Weaves context g₀ loose (left (beginLogger element attributes s))
    have spec := beginLogger_yields element attributes s
    cases hb : beginLogger element attributes s with
    | ok data s' =>
      rw [hb] at hbecomes
      obtain ⟨name, declared, r, leveled, graph, ds, hlogger, hlevel, hgraph, -, rfl⟩ :=
        spec.of_ok hb
      refine hs.calm hbecomes (restacks_logger (hlogger.grows hs.grounded hs.stores)
        (isLoggerOf_of_hasLogger hsettled hlogger) rfl ?_)
      have hleveled := hlevel.sameHoldings.kindsKept.variety? (hsettled.variety?_hasLogger hlogger)
      have hvariety := hgraph.sameHoldings.kindsKept.variety? hleveled
      exact fun hnone => nomatch hvariety.symm.trans hnone
    | error signal s' =>
      rw [hb] at hbecomes
      obtain ⟨e, -, ⟨ds, rfl⟩ | ⟨name, declared, r, leveled, ds, -, -, rfl, -⟩⟩ := spec.of_error hb
      · exact weaves_kept hs hbecomes rfl
      · exact weaves_kept hs hbecomes rfl
  · obtain ⟨name, declared, r, leveled, graph, ds, -, -, -, rfl, -⟩ :=
      (beginLogger_yields element attributes s).of_ok hbegin
    exact fun hname => absurd hname (by decide)

theorem rootLogger_weaves : rootLogger.Weaves context g₀ loose := by
  refine ⟨fun element attributes s hsettled hs _ => ⟨?_, fun data s' hbegin => ?_⟩,
    fun element text data s htied hs =>
      body_weaves htied hs (rootLogger_confined.body element text data s),
    fun element data s htied hs _ =>
      finish_weaves htied hs (rootLogger_confined.finish element data s)⟩
  · refine (beginRoot_yields element attributes s).left (fun _ s' hs' => ?_) fun _ s' he => ?_
    · obtain ⟨place, c, graph, ds, hcontext, hgraph, -, rfl⟩ := hs'
      have hbecomes : s.BecomesIf False False
          { s.reporting ds with graph, stack := c.root :: s.stack } :=
        BecomesIf.aside (.single (.adjusted hgraph)) rfl rfl rfl
      have hvariety := hgraph.sameHoldings.kindsKept.variety?
        (hsettled.variety?_logger hcontext List.mem_cons_self)
      obtain rfl := hsettled.context?_eq hcontext
      refine hs.calm hbecomes (restacks_logger (.refl hs.stores)
        ⟨c, (context?_eq_some hcontext).2, List.mem_cons_self⟩ rfl ?_)
      exact fun hnone => nomatch hvariety.symm.trans hnone
    · rw [he]
      exact hs.weaves
  · obtain ⟨place, c, graph, ds, -, -, rfl, -⟩ :=
      (beginRoot_yields element attributes s).of_ok hbegin
    exact fun hname => absurd hname (by decide)

/-! ### Components that are created -/

theorem beginAppender_weaves (element : String) (attributes : Attributes)
    (hs : s.Woven context g₀ loose) :
    s.Weaves context g₀ loose (left (beginAppender element attributes s)) := by
  refine (beginAppender_yields element attributes s).left (fun _ s' hs' => ?_) fun _ s' he => ?_
  · obtain ⟨className, c, ds, hc, -, rfl | ⟨name, named, hnamed, rfl⟩⟩ := hs'
    · exact hs.create hc rfl rfl rfl rfl
    · let s₁ : Session :=
        { s.reporting ds with graph := s.graph.add c, stack := s.graph.next :: s.stack }
      have hcreated : s.Weaves context g₀ loose s₁ := hs.create hc rfl rfl rfl rfl
      have hmade : s₁.graph.Made context g₀ s.graph.next := hs.made_next c
      have hget : s₁.graph.get? s.graph.next = some c := s.graph.get?_add_next c
      have hset := hcreated.woven.setFromText hget hnamed
      have hkind : named.isKind .appender = true := by
        rw [Component.isKind, (Component.alike_of_setFromText hnamed).kinds]
        exact ClassRegistry.isKind_of_instanceOfKind? hc
      have hkept := hset.woven.keepAppender name (hset.moves.made _ hmade)
        (get?_put_self hget named) hkind
      exact (hcreated.trans hset).trans hkept
  · rcases he with rfl | ⟨className, c, ds, hc, rfl⟩
    · exact hs.weaves
    · exact weaves_kept hs (BecomesIf.aside (.single (.created hc)) rfl rfl rfl) rfl

theorem appender_weaves : appender.Weaves context g₀ loose := by
  refine ⟨fun element attributes s _ hs _ => ⟨beginAppender_weaves element attributes hs,
    fun data s' hbegin => ?_⟩, fun _ _ _ _ _ hs => hs.weaves,
    fun element data s htied hs _ => finish_weaves htied hs (finishAppender_becomes element data s)⟩
  obtain ⟨className, c, ds, -, rfl, -⟩ := (beginAppender_yields element attributes s).of_ok hbegin
  exact fun hname => absurd hname (by decide)

/-- A component that was made is delivered to an object on the stack. -/
theorem delivered_weaves (hs : s.Woven context g₀ loose) {child : Ref} {parent? : Option Ref}
    (hchild : s.graph.Made context g₀ child)
    (hparent : ∀ below, s.stack = child :: below → ∀ parent, parent? = some parent → parent ∈ below)
    (h : s.Delivered child parent? s') : s.Weaves context g₀ loose s' := by
  have hactive : s.BecomesIf False False (s.activated child) := s.becomes_activated child
  cases h with
  | left htop => exact weaves_kept hs (hactive.aside rfl rfl rfl) (stack_activated s child)
  | @attached parent graph htop hp hattached =>
    obtain ⟨below, hstack⟩ := List.head?_eq_some_iff.1 htop
    have hbelow : (s.activated child).pop.stack = below := by
      show (s.activated child).stack.tail = below
      rw [stack_activated, hstack]
      rfl
    have hpopped : s.Weaves context g₀ loose (s.activated child).pop := by
      refine hs.calm (hactive.aside rfl rfl rfl) (.lower ?_)
      rw [hbelow, hstack]
      exact List.suffix_cons _ _
    refine hpopped.trans (hpopped.woven.attach hattached (.inr ?_))
    rw [hbelow]
    exact ⟨hparent below hstack parent hp, hpopped.moves.made child hchild,
      not_mem_of_once hs hchild ⟨[], hstack.symm⟩⟩

theorem weaves_popped (hs : s.Woven context g₀ loose) (child : Ref) :
    s.Weaves context g₀ loose (s.activated child).pop := by
  have hactive : s.BecomesIf False False (s.activated child) := s.becomes_activated child
  refine hs.calm (hactive.aside rfl rfl rfl) (.lower ?_)
  show (s.activated child).stack.tail <:+ s.stack
  rw [stack_activated]
  exact List.tail_suffix s.stack

theorem finishLayout_weaves (element : String) {data : Option ActionData}
    (hs : s.Woven context g₀ loose) (hplaces : s.Places context g₀ layout data) :
    s.Weaves context g₀ loose (left (finishLayout element data s)) := by
  unfold finishLayout
  split
  · next child =>
    refine (finishLayout_yields element s child).left (fun _ s' hs' => ?_) fun _ s' he => ?_
    · refine delivered_weaves hs (hplaces rfl) (fun below hstack parent hp => ?_) hs'
      rw [hstack] at hp
      exact List.mem_of_head? hp
    · rw [he.2]
      exact weaves_popped hs child
  · exact hs.weaves

theorem layout_weaves : layout.Weaves context g₀ loose := by
  refine ⟨fun element attributes s _ hs _ => ⟨?_, fun data s' hbegin => ?_⟩,
    fun _ _ _ _ _ hs => hs.weaves,
    fun element _ _ _ hs hplaces => finishLayout_weaves element hs hplaces⟩
  · refine (beginLayout_yields element attributes s).left (fun _ s' hs' => ?_) fun _ s' he => ?_
    · obtain ⟨className, c, hc, -, rfl⟩ := hs'
      exact hs.create hc rfl rfl rfl rfl
    · rw [he]
      exact hs.weaves
  · obtain ⟨className, c, -, rfl, rfl⟩ := (beginLayout_yields element attributes s).of_ok hbegin
    exact fun _ => hs.made_next c

theorem finishNestedComponent_weaves (element : String) {a : Action} {data : Option ActionData}
    (hs : s.Woven context g₀ loose) (hplaces : s.Places context g₀ a data) :
    s.Weaves context g₀ loose (left (finishNestedComponent element data s)) := by
  unfold finishNestedComponent
  split
  · next parent aggregation child =>
    obtain ⟨hchild, hplace⟩ := hplaces
    refine (finishNestedComponent_yields element s parent child aggregation).left
      (fun _ s' hs' => ?_) fun _ s' he => ?_
    · refine delivered_weaves hs hchild (fun below hstack parent' hp => ?_) hs'
      cases hp
      have honce := not_mem_of_once hs hchild ⟨[], hstack.symm⟩
      rw [hstack] at hplace
      rcases hplace with hoff | ⟨lower, hlower⟩
      · exact absurd List.mem_cons_self hoff
      · rcases List.suffix_cons_iff.1 hlower with he | hlower
        · cases he
          exact List.mem_cons_self
        · exact absurd (hlower.mem List.mem_cons_self) honce
    · rw [he.2]
      exact weaves_popped hs child
  · exact hs.weaves

theorem nestedComponent_weaves : nestedComponent.Weaves context g₀ loose := by
  refine ⟨fun element attributes s _ hs _ => ⟨?_, fun data s' hbegin => ?_⟩,
    fun _ _ _ _ _ hs => hs.weaves,
    fun element _ _ _ hs hplaces => finishNestedComponent_weaves element hs hplaces⟩
  · refine (beginNestedComponent_yields element attributes s).left (fun _ s' hs' => ?_)
      fun _ s' he => ?_
    · obtain ⟨parent, c, kind, className, child, -, -, -, hc, -, rfl⟩ := hs'
      exact hs.create hc rfl rfl rfl rfl
    · rw [he]
      exact hs.weaves
  · obtain ⟨parent, c, kind, className, child, htop, -, -, -, rfl, rfl⟩ :=
      (beginNestedComponent_yields element attributes s).of_ok hbegin
    obtain ⟨below, hstack⟩ := List.head?_eq_some_iff.1 htop
    exact ⟨hs.made_next child, .inr ⟨below, [], congrArg (s.graph.next :: ·) hstack.symm⟩⟩

/-! ### References -/

theorem appenderRef_weaves : appenderRef.Weaves context g₀ loose := by
  refine ⟨fun element attributes s _ hs hloose => ⟨?_, fun data s' hbegin => ?_⟩,
    fun _ _ _ _ _ hs => hs.weaves, fun _ _ _ _ hs _ => hs.weaves⟩
  · have spec := beginAppenderRef_yields element attributes s
    refine spec.left (fun _ s' hs' => ?_) fun _ s' he => ?_
    · obtain ⟨-, target, c, name, appender, graph, ds, htop, -, -, hname, happender, hattached,
        rfl⟩ := hs'
      have hreported := weaves_reporting hs ds
      refine hreported.trans (hreported.woven.attach hattached ?_)
      by_cases hopen : appender ∈ s.stack
      · exact .inl (hloose target appender ⟨⟨name, .mk rfl hname happender⟩, htop, hopen⟩)
      · have hmade := hs.bag _ (Entries.mem_of_find? happender)
        exact .inr ⟨List.mem_of_head? htop, hmade, hopen⟩
    · rw [he]
      exact hs.weaves
  · rw [((beginAppenderRef_yields element attributes s).of_ok hbegin).1]
    trivial

theorem builtins_weave : ∀ entry ∈ builtins, entry.1.Weaves context g₀ loose := by
  unfold builtins
  simp only [List.forall_mem_cons, List.not_mem_nil, false_imp_iff, implies_true, and_true]
  refine ⟨?_, ?_, ?_, ?_, logger_weaves, rootLogger_weaves, ?_, appender_weaves,
    appenderRef_weaves, layout_weaves, param_weaves, ?_, nestedComponent_weaves,
    nestedProperty_weaves⟩
  · exact weaves_of_quiet configuration_confined beginConfiguration_keeps
      beginConfiguration_yields
  · exact weaves_of_quiet (Q := fun _ _ _ _ => True) (E := fun _ _ _ => True) contextName_confined
      (fun _ _ => keeps_pure none) fun _ _ _ => yields_pure ⟨rfl, trivial⟩
  · exact weaves_of_quiet property_confined beginProperty_keeps
      beginProperty_yields
  · exact weaves_of_quiet conversionRule_confined beginConversionRule_keeps
      beginConversionRule_yields
  · exact weaves_of_quiet level_confined beginLevel_keeps beginLevel_yields
  · exact weaves_of_quiet newRule_confined beginNewRule_keeps
      beginNewRule_yields

end Actions
/-! ### Sessions -/

namespace Action.Builtin

variable {a : Action}

theorem within_proceeds (h : a.Builtin) (context : Ref) :
    a.Within (Session.Proceeds context) Action.Tied := by
  obtain ⟨entry, hentry, n, rfl⟩ := h
  exact ((Actions.builtins_confined entry hentry).within_proceeds
    (Actions.builtins_disciplined entry hentry) (Actions.builtins_open entry hentry)).instance
      (Session.passage_proceeds context) n

theorem weaves (h : a.Builtin) (context : Ref) (g₀ : Graph) (loose : Ref → Ref → Prop) :
    a.Weaves context g₀ loose := by
  obtain ⟨entry, hentry, n, rfl⟩ := h
  exact Actions.weaves_instance (Actions.builtins_weave entry hentry) n

end Action.Builtin

variable {context : Ref} {g₀ : Graph} {loose : Ref → Ref → Prop}

/-- A call keeps a session woven, if it is made with data that was handed out, and what it is handed
out is placed afterwards. -/
theorem Call.Follows.weaves {call : Call} {earlier : List Call}
    (h : call.Follows Action.Builtin earlier) (hsettled : call.session.Settled context)
    (hs : call.session.Woven context g₀ loose)
    (htied : ∀ other ∈ earlier, ∀ a data, other.Hands a data → a.Tied data)
    (hplaces : ∀ other ∈ earlier, ∀ a data, other.Hands a data →
      call.session.Places context g₀ a data)
    (hloose : ∀ u v, call.Encloses u v → loose u v) :
    call.session.Weaves context g₀ loose call.left ∧
      ∀ a data, call.Hands a data → call.left.Places context g₀ a data := by
  cases call with
  | begin a name attributes s =>
    obtain ⟨hstep, hbegun⟩ :=
      (Action.Builtin.weaves h context g₀ loose).begin name attributes s hsettled hs hloose
    refine ⟨hstep, fun _ data hhands => ?_⟩
    cases hhands with
    | @begin _ _ _ _ s' _ hb =>
      have hleft : (Call.begin a name attributes s).left = s' := congrArg Phase.left hb
      rw [hleft]
      exact hbegun data s' hb
  | body a name text data s =>
    obtain ⟨ha, other, hother, hhands⟩ := h
    have hdata := htied other hother a data hhands
    have hstep := (ha.weaves context g₀ loose).body name text data s hdata hs
    refine ⟨hstep, fun _ data' hbody => ?_⟩
    cases hbody
    obtain ⟨⟨pushed, hreleases⟩, -⟩ := hdata
    rw [hreleases.body_data]
    exact (hplaces other hother a data hhands).moves hstep.moves
  | finish a name data s =>
    obtain ⟨ha, other, hother, hhands⟩ := h
    exact ⟨(ha.weaves context g₀ loose).finish name data s (htied other hother a data hhands) hs
      (hplaces other hother a data hhands), nofun⟩

namespace Session.Trace

variable {calls : List Call} {s₀ s : Session}

theorem settled (h : Trace Action.Builtin [] s₀ calls s) (h₀ : s₀.Settled context) :
    s.Settled context ∧ ∀ call ∈ calls, ∀ a data, call.Hands a data → a.Tied data := by
  have hpasses := (h.mono fun a ha => ha.within_proceeds context).passes
    (passage_proceeds context) fun _ hcall => absurd hcall List.not_mem_nil
  exact ⟨hpasses.session.2 h₀, hpasses.handed⟩

/-- A session stays woven if the links that its references close are left out. -/
theorem woven (h : Trace Action.Builtin [] s₀ calls s) (h₀ : s₀.Settled context)
    (hwoven : s₀.Woven context g₀ loose)
    (hloose : ∀ call ∈ calls, ∀ u v, call.Encloses u v → loose u v) :
    s.Woven context g₀ loose ∧
      ∀ call ∈ calls, ∀ a data, call.Hands a data → s.Places context g₀ a data := by
  induction h with
  | nil => exact ⟨hwoven, fun _ hcall => absurd hcall List.not_mem_nil⟩
  | aside _ haside ih =>
    obtain ⟨hs, hplaces⟩ := ih hloose
    have hstep := Actions.weaves_kept hs
      (becomes_aside haside.graph haside.bag haside.classes) haside.stack
    exact ⟨hstep.woven, fun call hcall a data hhands =>
      (hplaces call hcall a data hhands).moves hstep.moves⟩
  | call htrace hfollows ih =>
    obtain ⟨hencloses, hloose⟩ := List.forall_mem_cons.1 hloose
    obtain ⟨hs, hplaces⟩ := ih hloose
    obtain ⟨hsettled, htied⟩ := htrace.settled h₀
    obtain ⟨hstep, hhands⟩ := hfollows.weaves hsettled hs htied hplaces hencloses
    exact ⟨hstep.woven, List.forall_mem_cons.2 ⟨hhands, fun call hcall a data hdata =>
      (hplaces call hcall a data hdata).moves hstep.moves⟩⟩

end Session.Trace

namespace Graph

/-- A new context and its root logger hold nothing. -/
theorem childrenOf_addContext (name : String) (r : Ref) :
    (addContext {} name).1.childrenOf r = [] := by
  cases hr : (addContext {} name).1.get? r with
  | none =>
    rw [childrenOf, hr]
    rfl
  | some c =>
    rw [childrenOf_of_get? hr]
    rcases cells_addContext name hr with ⟨-, rfl⟩ | rfl
    · rfl
    · rfl

theorem acyclic_addContext (name : String) : (addContext {} name).1.Acyclic := by
  intro r h
  obtain ⟨u, hu, -⟩ := Relation.TransGen.head'_iff.1 h
  rw [childrenOf_addContext] at hu
  cases hu

theorem stores_addContext (name : String) : (addContext {} name).1.Stores := by
  intro r c hr
  rcases cells_addContext name hr with ⟨-, rfl⟩ | rfl
  · trivial
  · trivial

end Graph

namespace Configurator

theorem woven_session (c : Configurator) {g : Graph} (hsettled : (c.session g).Settled c.context)
    (hclasses : c.classes.Stores) (hg : g.Stores) (hacyclic : g.Acyclic) :
    (c.session g).Woven c.context g loose := by
  have hgrounded := hsettled.toGrounded
  have hused := hsettled.stacked.used
  obtain ⟨properties, hsession⟩ := c.session_eq g
  rw [hsession] at hgrounded hused ⊢
  refine ⟨hgrounded, hclasses, hg, fun _ h => h, hused, List.pairwise_singleton _ _, nofun,
    fun u _ hu _ => absurd hu.fresh hu.used, fun r hr => hacyclic r ?_⟩
  exact Relation.TransGen.mono (fun _ _ hlink => hlink.1) _ _ hr

/-- References close all cycles. Take any session over a graph without cycles, with any further
classes that store the children they are given. In each of its states, every component that leads
back to itself does so through what a reference attached to an object inside of the appender that it
named. So there is no cycle as long as no reference stands inside of the appender it names. -/
theorem course_acyclic (c : Configurator) (hactions : c.actions = Actions.registry)
    (hfresh : c.classes.Fresh) (hclasses : c.classes.Stores) {g : Graph}
    (hlodges : g.Lodges c.context) (hkinded : g.WellKinded) (hg : g.Stores) (hacyclic : g.Acyclic)
    (source : String) :
    let inside := fun u v => ∃ call ∈ c.calls g source, call.Encloses u v
    ∀ s ∈ c.course g source, (∀ r, ¬ Relation.TransGen (s.graph.Link inside) r r) ∧
      ((∀ u v, ¬ inside u v) → s.graph.Acyclic) := by
  intro inside s hs
  have hsettled := c.settled_session hfresh hlodges hkinded
  obtain ⟨calls, hcalls, htrace⟩ := c.course_traces Action.ofEveryInstance_builtin
    (c.acts_builtin hactions g) source s hs
  have hwoven := (htrace.woven hsettled (c.woven_session hsettled hclasses hg hacyclic)
    fun call hcall u v hencloses => (⟨call, hcalls.subset hcall, hencloses⟩ : inside u v)).1
  refine ⟨hwoven.acyclic, fun hnone r hr => hwoven.acyclic r ?_⟩
  exact Relation.TransGen.mono (fun u v hchild => ⟨hchild, hnone u v⟩) _ _ hr

/-- An appender of a class with a collection of appenders, which holds one declared before, and is
held by the root logger. -/
theorem course_acyclic_collection :
    let probe := CustomClass.storing "AsyncProbe" [.appender]
      [⟨"name", .basic .string⟩, ⟨"appender", .collection .appender⟩] fun _ _ => none
    let classes := ClassRegistry.builtins.register "AsyncProbe" (.custom { type := probe })
    let g := (Graph.addContext {} "test").1
    let c : Configurator := { context := (Graph.addContext {} "test").2, classes }
    let source := "<configuration><appender name=\"A\" class=\"AsyncProbe\"/>" ++
      "<appender name=\"B\" class=\"AsyncProbe\"><appender-ref ref=\"A\"/></appender>" ++
      "<root><appender-ref ref=\"B\"/></root></configuration>"
    let inside := fun u v => ∃ call ∈ c.calls g source, call.Encloses u v
    (c.classes.Fresh ∧ c.classes.Stores ∧ g.Lodges c.context ∧ g.WellKinded ∧ g.Stores ∧
      g.Acyclic ∧ ∀ u v, ¬ inside u v) ∧
    ((c.run g source).graph.childrenOf ⟨0⟩ = [⟨3⟩] ∧
      (c.run g source).graph.childrenOf ⟨3⟩ = [⟨2⟩]) ∧
    ∀ s ∈ c.course g source, s.graph.Acyclic := by
  intro probe classes g c source inside
  have hfresh : classes.Fresh := ClassRegistry.fresh_builtins.register rfl
  have hprobe : probe.Stores := CustomClass.stores_storing ..
  have hclasses : classes.Stores := ClassRegistry.stores_builtins.register hprobe
  have hlodges : g.Lodges c.context := (Graph.wellFormed_addContext (g := {}) nofun "test").loggers
  have hkinded := Graph.wellKinded_addContext "test"
  have hg := Graph.stores_addContext "test"
  have hacyclic := Graph.acyclic_addContext "test"
  obtain ⟨hheld, hclosed⟩ : ((c.run g source).graph.childrenOf ⟨0⟩ = [⟨3⟩] ∧
      (c.run g source).graph.childrenOf ⟨3⟩ = [⟨2⟩]) ∧
      ∀ call ∈ c.calls g source, ∀ r ∈ call.reference?, r ∉ call.session.stack := by
    decide +kernel
  have hnone : ∀ u v, ¬ inside u v := by
    rintro u v ⟨call, hcall, hencloses⟩
    exact hclosed call hcall v hencloses.reference?_eq hencloses.unfinished
  exact ⟨⟨hfresh, hclasses, hlodges, hkinded, hg, hacyclic, hnone⟩, hheld, fun s hs =>
    (course_acyclic c rfl hfresh hclasses hlodges hkinded hg hacyclic source s hs).2 hnone⟩

/-- An appender of such a class with an appender inside, which refers to the one around it. The
reference puts the outer appender into the inner one, and the end of the inner one puts that into
the outer one. -/
theorem course_cyclic :
    let probe := CustomClass.storing "AsyncProbe" [.appender]
      [⟨"name", .basic .string⟩, ⟨"appender", .collection .appender⟩] fun _ _ => none
    let classes := ClassRegistry.builtins.register "AsyncProbe" (.custom { type := probe })
    let g := (Graph.addContext {} "test").1
    let c : Configurator := { context := (Graph.addContext {} "test").2, classes }
    let source := "<configuration><appender name=\"A\" class=\"AsyncProbe\">" ++
      "<appender class=\"AsyncProbe\"><appender-ref ref=\"A\"/></appender></appender>" ++
      "<root><appender-ref ref=\"A\"/></root></configuration>"
    (c.classes.Fresh ∧ c.classes.Stores ∧ g.Acyclic) ∧
    ((c.run g source).graph.childrenOf ⟨2⟩ = [⟨3⟩] ∧
      (c.run g source).graph.childrenOf ⟨3⟩ = [⟨2⟩]) ∧
    ¬ ∀ s ∈ c.course g source, s.graph.Acyclic := by
  intro probe classes g c source
  have hprobe : probe.Stores := CustomClass.stores_storing ..
  have hlast : c.run g source ∈ c.course g source := List.mem_append_right _ List.mem_cons_self
  have hheld : (c.run g source).graph.childrenOf ⟨2⟩ = [⟨3⟩] ∧
      (c.run g source).graph.childrenOf ⟨3⟩ = [⟨2⟩] := by decide +kernel
  refine ⟨⟨ClassRegistry.fresh_builtins.register rfl,
    ClassRegistry.stores_builtins.register hprobe, Graph.acyclic_addContext "test"⟩, hheld,
    fun h => h _ hlast ⟨2⟩ ?_⟩
  refine .tail (.single (?_ : (⟨3⟩ : Ref) ∈ (c.run g source).graph.childrenOf ⟨2⟩)) ?_
  · rw [hheld.1]
    exact List.mem_cons_self
  · rw [hheld.2]
    exact List.mem_cons_self

end Configurator
end LogConfig
