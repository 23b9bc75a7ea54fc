import LogConfig.Proofs.Effects.Changes

/-
  Graphs in which every child is of the kind that is wanted where it is held. No change of a
  session touches what components of the built-in classes hold, save that attaching adds a child
  after a check of its kind (`Graph.Shifts`), and none touches the kinds that a component can serve
  as. So children stay of the kinds that they were checked for, whatever classes a document may use
  beside the built-in ones.
-/

namespace LogConfig

namespace Graph

/-- The component under a handle can serve as a kind. -/
def HasKind (g : Graph) (kind : ComponentKind) (r : Ref) : Prop :=
  ∃ c, g.get? r = some c ∧ c.isKind kind = true

/-- Every component is still there, of its variety and kinds. -/
def KindsKept (g g' : Graph) : Prop :=
  ∀ r c, g.get? r = some c → ∃ c', g'.get? r = some c' ∧ c'.variety = c.variety ∧ c'.kinds = c.kinds

/-- Every component holds what it held, and those that are new hold nothing. -/
structure SameHoldings (g g' : Graph) : Prop where
  kept : ∀ r c, g.get? r = some c → ∃ c', g'.get? r = some c' ∧ c.Alike c'
  fresh : ∀ r c', g.get? r = none → g'.get? r = some c' → c'.holdings = []

/-- What components hold is as it was, or a child was attached. -/
inductive Shifts (g : Graph) : Graph → Prop where
  | same {g' : Graph} : g.SameHoldings g' → Shifts g g'
  | attached {g' : Graph} {parent child : Ref} {aggregation : Aggregation} {name : String} :
    g.attach parent aggregation name child = .ok g' → Shifts g g'

end Graph

/-- The slots of an appender are empty or filled by what they are for, and its filters are
filters. -/
structure AppenderCore.WellKinded (g : Graph) (a : AppenderCore) : Prop where
  encoder : ∀ r, a.encoder = some r → g.HasKind .encoder r
  layout : ∀ r, a.layout = some r → g.HasKind .layout r
  filters : ∀ r ∈ a.filters, g.HasKind .filter r

/-- What a component of a built-in class holds is of the kinds that are wanted there. -/
def Component.WellKinded (g : Graph) : Component → Prop
  | console a => a.core.WellKinded g
  | file a => a.core.WellKinded g
  | logger l => ∀ r ∈ l.appenders, g.HasKind .appender r
  | _ => True

theorem AppenderCore.wellKinded_iff {g : Graph} {a : AppenderCore} :
    a.WellKinded g ↔ ∀ held ∈ a.holdings, g.HasKind held.1 held.2 := by
  constructor
  · intro h held hheld
    simp only [holdings, List.mem_append, List.mem_map, Option.mem_toList] at hheld
    rcases hheld with ⟨r, hr, rfl⟩ | ⟨r, hr, rfl⟩ | ⟨r, hr, rfl⟩
    · exact h.encoder r hr
    · exact h.layout r hr
    · exact h.filters r hr
  · intro h
    refine ⟨fun r hr => h (.encoder, r) ?_, fun r hr => h (.layout, r) ?_,
      fun r hr => h (.filter, r) ?_⟩
    · simp [holdings, hr]
    · simp [holdings, hr]
    · simp [holdings, hr]

theorem Component.wellKinded_iff {g : Graph} {c : Component} :
    c.WellKinded g ↔ ∀ held ∈ c.holdings, g.HasKind held.1 held.2 := by
  cases c with
  | console a | file a => exact AppenderCore.wellKinded_iff
  | logger l => simp [WellKinded, holdings]
  | _ => exact ⟨fun _ _ hheld => absurd hheld List.not_mem_nil, fun _ => trivial⟩

namespace Graph

variable {g g' g'' : Graph}

/-! ### Changes of a graph -/

theorem SameHoldings.refl (g : Graph) : g.SameHoldings g :=
  ⟨fun _ c hc => ⟨c, hc, .refl c⟩, fun r c hnone hc => by rw [hnone] at hc; cases hc⟩

theorem SameHoldings.trans (h : g.SameHoldings g') (h' : g'.SameHoldings g'') :
    g.SameHoldings g'' := by
  constructor
  · intro r c hc
    obtain ⟨c', hc', halike⟩ := h.kept r c hc
    obtain ⟨c'', hc'', halike'⟩ := h'.kept r c' hc'
    exact ⟨c'', hc'', halike.trans halike'⟩
  · intro r c'' hnone hc''
    cases hr : g'.get? r with
    | none => exact h'.fresh r c'' hr hc''
    | some c' =>
      obtain ⟨c₀, hc₀, halike⟩ := h'.kept r c' hr
      rw [hc''] at hc₀
      cases hc₀
      rw [halike.holdings, h.fresh r c' hnone hr]

theorem sameHoldings_put {r : Ref} {c c' : Component} (hc : g.get? r = some c)
    (h : c.Alike c') : g.SameHoldings (g.put r c') := by
  constructor
  · intro other held hheld
    by_cases he : other = r
    · subst he
      rw [hc] at hheld
      cases hheld
      exact ⟨c', get?_put_self hc c', h⟩
    · exact ⟨held, by rw [get?_put_of_ne he, hheld], .refl held⟩
  · intro other held hnone hheld
    rw [get?_put] at hheld
    split at hheld
    · rw [hnone] at hheld
      cases hheld
    · rw [hnone] at hheld
      cases hheld

theorem sameHoldings_add {c : Component} (h : c.holdings = []) : g.SameHoldings (g.add c) := by
  constructor
  · exact fun r held hheld => ⟨held, get?_add_of_some hheld c, .refl held⟩
  · intro r held hnone hheld
    rw [get?_add] at hheld
    split at hheld
    · cases hheld
      exact h
    · rw [hnone] at hheld
      cases hheld

theorem KindsKept.trans (h : g.KindsKept g') (h' : g'.KindsKept g'') : g.KindsKept g'' := by
  intro r c hc
  obtain ⟨c', hc', hvariety, hkinds⟩ := h r c hc
  obtain ⟨c'', hc'', hvariety', hkinds'⟩ := h' r c' hc'
  exact ⟨c'', hc'', hvariety'.trans hvariety, hkinds'.trans hkinds⟩

theorem SameHoldings.kindsKept (h : g.SameHoldings g') : g.KindsKept g' := by
  intro r c hc
  obtain ⟨c', hc', halike⟩ := h.kept r c hc
  exact ⟨c', hc', halike.variety, halike.kinds⟩

theorem Attached.kindsKept {r child : Ref} (h : g.Attached r child g') : g.KindsKept g' := by
  obtain ⟨c, c', held, kind, hc, -, -, -, -, hgains, rfl⟩ := h.gains
  intro other held hheld
  by_cases he : other = r
  · subst he
    rw [hc] at hheld
    cases hheld
    exact ⟨c', get?_put_self hc c', hgains.variety, hgains.kinds⟩
  · exact ⟨held, by rw [get?_put_of_ne he, hheld], rfl, rfl⟩

theorem Shifts.kindsKept (h : g.Shifts g') : g.KindsKept g' := by
  cases h with
  | same hsame => exact hsame.kindsKept
  | attached hattach => exact (attached_of_attach hattach).kindsKept

theorem HasKind.kept {kind : ComponentKind} {r : Ref} (h : g.HasKind kind r)
    (hkept : g.KindsKept g') : g'.HasKind kind r := by
  obtain ⟨c, hc, hkind⟩ := h
  obtain ⟨c', hc', -, hkinds⟩ := hkept r c hc
  refine ⟨c', hc', ?_⟩
  rwa [Component.isKind, hkinds]

/-- Everything held in the graph is of the kind wanted there. -/
def WellKinded (g : Graph) : Prop := ∀ r c, g.get? r = some c → c.WellKinded g

theorem WellKinded.shift (h : g.WellKinded) (hshifts : g.Shifts g') : g'.WellKinded := by
  have hkept := hshifts.kindsKept
  intro r c' hc'
  rw [Component.wellKinded_iff]
  intro pair hpair
  cases hshifts with
  | same hsame =>
    cases hr : g.get? r with
    | none =>
      rw [hsame.fresh r c' hr hc'] at hpair
      cases hpair
    | some c =>
      obtain ⟨c₀, hc₀, halike⟩ := hsame.kept r c hr
      rw [hc'] at hc₀
      cases hc₀
      rw [halike.holdings] at hpair
      exact (Component.wellKinded_iff.1 (h r c hr) pair hpair).kept hkept
  | @attached parent child _ _ hattach =>
    obtain ⟨c, changed, held, kind, hc, -, -, hheld, hkind, hgains, rfl⟩ :=
      (attached_of_attach hattach).gains
    by_cases he : r = parent
    · subst he
      rw [get?_put_self hc] at hc'
      cases hc'
      rcases hgains.holdings pair hpair with hpair | rfl
      · exact (Component.wellKinded_iff.1 (h r c hc) pair hpair).kept hkept
      · -- the child that the kind was checked of
        exact HasKind.kept ⟨held, hheld, hkind⟩ hkept
    · rw [get?_put_of_ne he] at hc'
      exact (Component.wellKinded_iff.1 (h r c' hc') pair hpair).kept hkept

theorem Adjusted.sameHoldings {r : Ref} (h : g.Adjusted r g') : g.SameHoldings g' := by
  cases h with
  | kept => exact .refl g
  | level hl _ => exact sameHoldings_put (get?_of_logger? hl) ⟨rfl, rfl, rfl⟩
  | additive hl => exact sameHoldings_put (get?_of_logger? hl) ⟨rfl, rfl, rfl⟩

theorem sameHoldings_addLogger {place : Ref} {c : LoggerContext}
    (hc : g.context? place = some c) (name : String) {l : Logger} (hl : l.appenders = []) :
    g.SameHoldings (g.addLogger place c name l).1 := by
  have hadded : g.SameHoldings (g.add (.logger l)) := sameHoldings_add (by
    rw [Component.holdings, hl, List.map_nil])
  exact hadded.trans
    (sameHoldings_put (get?_add_of_some (get?_of_context? hc) _) ⟨rfl, rfl, rfl⟩)

theorem wellKinded_addContext (name : String) : (addContext {} name).1.WellKinded := by
  intro r c hc
  rcases cells_addContext name hc with ⟨-, rfl⟩ | rfl
  · trivial
  · nofun

end Graph

/-! ### Changes of a session -/

/-- Instances of the classes hold nothing when they are made. -/
def ClassRegistry.Fresh (reg : ClassRegistry) : Prop :=
  ∀ entry ∈ reg.prototypes, entry.2.children = []

theorem ClassRegistry.Fresh.children {reg : ClassRegistry} (h : reg.Fresh) {className : String}
    {kind : ComponentKind} {c : Component} (hc : reg.instanceOfKind? className kind = .ok c) :
    c.children = [] := by
  obtain ⟨entry, hentry, rfl⟩ := mem_of_instanceOfKind? hc
  exact h entry hentry

theorem ClassRegistry.fresh_builtins : builtins.Fresh :=
  fun entry hentry => (builtins_prototypes entry hentry).1

/-- Further classes may be registered whose instances hold nothing when they are made. -/
theorem ClassRegistry.Fresh.register {reg : ClassRegistry} (h : reg.Fresh) {name : String}
    {c : Component} (hc : c.children = []) : (reg.register name c).Fresh := by
  intro entry hentry
  rcases Entries.mem_insert hentry with rfl | hentry
  · exact hc
  · exact h entry hentry

namespace Session

/-- Whatever components of the built-in classes hold is of the kind wanted there, and the appenders
kept by name are appenders. -/
structure WellKinded (s : Session) : Prop where
  graph : s.graph.WellKinded
  bag : ∀ entry ∈ s.appenderBag, s.graph.HasKind .appender entry.2

variable {sets attaches : Prop} {s s' : Session}

theorem HasLogger.sameHoldings {name : String} {graph : Graph} {r : Ref}
    (h : s.HasLogger name graph r) (hclasses : s.classes.Fresh) : s.graph.SameHoldings graph := by
  cases h with
  | known _ _ => exact .refl _
  | plain hcontext _ =>
    exact Graph.sameHoldings_addLogger (context?_eq_some hcontext).2 name rfl
  | @ofClass _ _ _ prototype hcontext _ hprototype =>
    have hnone : prototype.appenders = [] := hclasses.children hprototype
    exact Graph.sameHoldings_addLogger (context?_eq_some hcontext).2 name hnone

/-- A single change shifts the graph. -/
theorem AltersIf.shifts (h : s.AltersIf sets attaches s') (hclasses : s.classes.Fresh) :
    s.graph.Shifts s'.graph ∧ s'.classes = s.classes := by
  cases h with
  | aside hg _ hc => exact ⟨by rw [hg]; exact .same (.refl _), hc⟩
  | created hc =>
    exact ⟨.same (Graph.sameHoldings_add
      (Component.holdings_eq_nil (hclasses.children hc))), rfl⟩
  | kept _ _ _ _ => exact ⟨.same (.refl _), rfl⟩
  | set _ hc hset =>
    exact ⟨.same (Graph.sameHoldings_put hc (Component.alike_of_setFromText hset)), rfl⟩
  | adjusted hadjusted => exact ⟨.same hadjusted.sameHoldings, rfl⟩
  | declared hlogger => exact ⟨.same (hlogger.sameHoldings hclasses), rfl⟩
  | revised hcontext _ =>
    have hplace := Graph.get?_of_context? (context?_eq_some hcontext).2
    exact ⟨.same (Graph.sameHoldings_put hplace ⟨rfl, rfl, rfl⟩), rfl⟩
  | attached _ hattached =>
    obtain ⟨aggregation, name, hattach⟩ := hattached.exists_attach
    exact ⟨.attached hattach, rfl⟩
  | activated hc hactive =>
    exact ⟨.same (Graph.sameHoldings_put hc (Component.alike_of_activate? hactive)), rfl⟩

theorem AltersIf.wellKinded (halters : s.AltersIf sets attaches s') (hclasses : s.classes.Fresh)
    (h : s.WellKinded) : s'.WellKinded := by
  have hshifts := (halters.shifts hclasses).1
  have hkept := hshifts.kindsKept
  refine ⟨h.graph.shift hshifts, ?_⟩
  cases halters with
  | aside hg hb _ =>
    rw [hb]
    exact fun entry hentry => (h.bag entry hentry).kept hkept
  | @kept name r c _ hc hkind =>
    rw [appenderBag_keepAppender]
    intro entry hentry
    rcases Entries.mem_insert hentry with rfl | hentry
    · exact ⟨c, hc, hkind⟩
    · exact h.bag entry hentry
  | _ => exact fun entry hentry => (h.bag entry hentry).kept hkept

theorem BecomesIf.wellKinded (hbecomes : s.BecomesIf sets attaches s') (hclasses : s.classes.Fresh)
    (h : s.WellKinded) :
    s'.WellKinded ∧ Relation.ReflTransGen Graph.Shifts s.graph s'.graph ∧
      s'.classes = s.classes := by
  induction hbecomes with
  | refl => exact ⟨h, .refl, rfl⟩
  | tail _ hlast ih =>
    obtain ⟨hkinded, hshifts, hsame⟩ := ih
    rw [← hsame] at hclasses
    obtain ⟨hshift, hsame'⟩ := hlast.shifts hclasses
    exact ⟨hlast.wellKinded hclasses hkinded, hshifts.tail hshift, hsame'.trans hsame⟩

end Session
end LogConfig
