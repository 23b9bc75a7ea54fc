import LogConfig.Proofs.Effects.Course
import LogConfig.Proofs.Invariants.Kinds

/-
  What lies on the stack of a session. The context stays at the bottom while there is one, and its
  loggers are loggers, so what the logger actions push are loggers; the other actions push a
  component that they have just made. So an object that lies on the stack twice is a logger, and
  every state of a session is settled in this sense (`Session.Settled`), whatever classes are
  registered and whichever actions a document binds to its elements.
-/

namespace LogConfig

/-! ### Where the loggers of a context are -/

namespace Graph

/-- The component under the handle is a context, and what it has for loggers is loggers. -/
def Lodges (context : Ref) (g : Graph) : Prop :=
  ∃ c, g.context? context = some c ∧
    ∀ k ∈ c.root :: c.loggers.map Prod.snd, g.variety? k = some .logger

variable {context : Ref} {g g' : Graph}

theorem KindsKept.variety? (h : g.KindsKept g') {r : Ref} {v : Variety}
    (hr : g.variety? r = some v) : g'.variety? r = some v := by
  obtain ⟨c, hc, rfl⟩ := variety?_eq_some.1 hr
  obtain ⟨c', hc', hvariety, -⟩ := h r c hc
  rw [variety?_of_get? hc', hvariety]

theorem Lodges.of_context? (h : g.Lodges context) (hkept : g.KindsKept g')
    (hcontext : g'.context? context = g.context? context) : g'.Lodges context := by
  obtain ⟨c, hc, hloggers⟩ := h
  exact ⟨c, by rw [hcontext, hc], fun k hk => hkept.variety? (hloggers k hk)⟩

theorem Lodges.context?_put (h : g.Lodges context) {r : Ref} {c : Component}
    (hc : g.get? r = some c) (hplain : c.variety ≠ .context) (c' : Component) :
    (g.put r c').context? context = g.context? context := by
  obtain ⟨cx, hcx, -⟩ := h
  have hne : context ≠ r := by
    rintro rfl
    rw [Option.some.inj (hc.symm.trans (get?_of_context? hcx))] at hplain
    exact hplain rfl
  unfold context?
  rw [get?_put_of_ne hne]

theorem Lodges.context?_add (h : g.Lodges context) (c : Component) :
    (g.add c).context? context = g.context? context := by
  obtain ⟨cx, hcx, -⟩ := h
  rw [hcx]
  unfold context?
  rw [get?_add_of_some (get?_of_context? hcx)]

/-- A change of another component than a context. -/
theorem Lodges.put (h : g.Lodges context) {r : Ref} {c c' : Component} (hc : g.get? r = some c)
    (hkept : g.KindsKept (g.put r c')) (hplain : c.variety ≠ .context) :
    (g.put r c').Lodges context :=
  h.of_context? hkept (h.context?_put hc hplain c')

/-- A context may take further loggers, or change otherwise. -/
theorem Lodges.put_context (h : g.Lodges context) {place : Ref} {c c' : LoggerContext}
    (hc : g.context? place = some c) (hkept : g.KindsKept (g.put place (.context c')))
    (hloggers : ∀ k ∈ c'.root :: c'.loggers.map Prod.snd,
      k ∈ c.root :: c.loggers.map Prod.snd ∨ g.variety? k = some .logger) :
    (g.put place (.context c')).Lodges context := by
  by_cases he : context = place
  · subst he
    obtain ⟨cx, hcx, hold⟩ := h
    rw [hc] at hcx
    cases hcx
    refine ⟨c', ?_, fun k hk => hkept.variety? ?_⟩
    · unfold context?
      rw [get?_put_self (get?_of_context? hc)]
    · rcases hloggers k hk with hk | hk
      · exact hold k hk
      · exact hk
  · refine h.of_context? hkept ?_
    unfold context?
    rw [get?_put_of_ne he]

theorem Lodges.add (h : g.Lodges context) (c : Component) (hkept : g.KindsKept (g.add c)) :
    (g.add c).Lodges context :=
  h.of_context? hkept (h.context?_add c)

theorem Lodges.addLogger (h : g.Lodges context) {place : Ref} {c : LoggerContext}
    (hc : g.context? place = some c) (name : String) (l : Logger) :
    (g.addLogger place c name l).1.Lodges context := by
  have hkept : g.KindsKept (g.add (.logger l)) := fun r held hheld =>
    ⟨held, get?_add_of_some hheld _, rfl, rfl⟩
  have hget := get?_add_of_some (get?_of_context? hc) (.logger l)
  have hlater : (g.add (.logger l)).context? place = some c := by rw [context?, hget]
  have halike : (Component.context c).Alike
      (.context { c with loggers := Entries.insert name g.next c.loggers }) := ⟨rfl, rfl, rfl⟩
  refine (h.add (.logger l) hkept).put_context hlater
    (sameHoldings_put hget halike).kindsKept fun k hk => ?_
  rcases List.mem_cons.1 hk with rfl | hk
  · exact .inl List.mem_cons_self
  · obtain ⟨entry, hentry, rfl⟩ := List.mem_map.1 hk
    rcases Entries.mem_insert hentry with rfl | hentry
    · exact .inr (g.variety?_add_next _)
    · exact .inl (List.mem_cons_of_mem _ (List.mem_map_of_mem hentry))

end Graph

namespace Session

open LogConfig.Graph

variable {context : Ref} {sets attaches : Prop} {s s' : Session}

theorem AltersIf.lodges (halters : s.AltersIf sets attaches s') (hclasses : s.classes.Fresh)
    (h : s.graph.Lodges context) : s'.graph.Lodges context := by
  have hkept := (halters.shifts hclasses).1.kindsKept
  cases halters with
  | aside hg _ _ => rwa [hg]
  | created _ => exact h.add _ hkept
  | kept _ _ _ _ => exact h
  | @set r c c' name text _ hc hset =>
    refine h.put hc hkept fun hcontext => ?_
    cases c with
    | context _ => cases hset
    | _ => cases hcontext
  | adjusted hadjusted =>
    cases hadjusted with
    | kept => exact h
    | level hl _ => exact h.put (get?_of_logger? hl) hkept nofun
    | additive hl => exact h.put (get?_of_logger? hl) hkept nofun
  | declared hlogger =>
    cases hlogger with
    | known _ _ => exact h
    | plain hcontext _ => exact h.addLogger (context?_eq_some hcontext).2 _ _
    | ofClass hcontext _ _ => exact h.addLogger (context?_eq_some hcontext).2 _ _
  | revised hcontext hrevised =>
    refine h.put_context (context?_eq_some hcontext).2 hkept fun k hk => .inl ?_
    rwa [hrevised.root, hrevised.loggers] at hk
  | attached _ hattached =>
    obtain ⟨c, c', held, kind, hc, hplain, -, -, -, -, rfl⟩ := hattached.gains
    exact h.put hc hkept hplain
  | @activated r c active hc hactive =>
    refine h.put hc hkept fun hcontext => ?_
    cases c with
    | context _ => cases hactive
    | _ => cases hcontext

/-- What a session keeps of its graph. -/
structure Grounded (context : Ref) (s : Session) : Prop where
  classes : s.classes.Fresh
  lodges : s.graph.Lodges context
  kinded : s.WellKinded

theorem BecomesIf.grounded (hbecomes : s.BecomesIf sets attaches s') (h : s.Grounded context) :
    s'.Grounded context ∧ s.graph.KindsKept s'.graph := by
  induction hbecomes with
  | refl => exact ⟨h, (SameHoldings.refl _).kindsKept⟩
  | tail _ hlast ih =>
    obtain ⟨⟨hclasses, hlodges, hkinded⟩, hkept⟩ := ih
    obtain ⟨hshifts, hsame⟩ := hlast.shifts hclasses
    exact ⟨⟨by rw [hsame]; exact hclasses, hlast.lodges hclasses hlodges,
      hlast.wellKinded hclasses hkinded⟩, hkept.trans hshifts.kindsKept⟩

end Session

/-! ### The stack of a session -/

namespace Graph

/-- The objects on a stack are there in the graph; the one at the bottom is the context, if it is
a context at all; and an object that is on the stack twice is a logger. -/
structure Stacked (context : Ref) (g : Graph) (st : List Ref) : Prop where
  bottom : ∀ r, st.getLast? = some r → r = context ∨ g.variety? r ≠ some .context
  used : ∀ r ∈ st, g.variety? r ≠ none
  once : st.Pairwise fun r r' => r = r' → g.variety? r = some .logger

namespace Stacked

variable {context : Ref} {g g' : Graph} {st st' : List Ref}

theorem kept (h : g.Stacked context st) (hkept : g.KindsKept g') : g'.Stacked context st := by
  have hvariety : ∀ r ∈ st, g'.variety? r = g.variety? r := by
    intro r hr
    obtain ⟨v, hv⟩ := Option.ne_none_iff_exists'.1 (h.used r hr)
    rw [hv, hkept.variety? hv]
  refine ⟨fun r hr => ?_, fun r hr => ?_, ?_⟩
  · rw [hvariety r (List.mem_of_getLast? hr)]
    exact h.bottom r hr
  · rw [hvariety r hr]
    exact h.used r hr
  · refine h.once.imp_of_mem fun hr _ hlogger he => ?_
    rw [hvariety _ hr, hlogger he]

theorem lower (h : g.Stacked context st) (hst : st' <:+ st) : g.Stacked context st' := by
  refine ⟨fun r hr => h.bottom r ?_, fun r hr => h.used r (hst.mem hr), h.once.sublist hst.sublist⟩
  obtain ⟨above, rfl⟩ := hst
  rw [List.getLast?_append, hr]
  rfl

theorem push (h : g.Stacked context st) {r : Ref} (hused : g.variety? r ≠ none)
    (hlowest : st = [] → g.variety? r ≠ some .context)
    (htwice : r ∈ st → g.variety? r = some .logger) : g.Stacked context (r :: st) := by
  refine ⟨fun b hb => ?_, List.forall_mem_cons.2 ⟨hused, h.used⟩,
    List.pairwise_cons.2 ⟨fun r' hr' he => htwice (he ▸ hr'), h.once⟩⟩
  cases st with
  | nil =>
    cases hb
    exact .inr (hlowest rfl)
  | cons below rest =>
    rw [List.getLast?_cons_cons] at hb
    exact h.bottom b hb

end Stacked
end Graph

namespace Session

variable {context : Ref} {sets attaches : Prop} {s s' : Session}

/-- The stack of the session, whose graph is grounded, is one of the graph. -/
structure Settled (context : Ref) (s : Session) : Prop extends s.Grounded context where
  stacked : s.graph.Stacked context s.stack

/-- What a phase makes of the stack: it takes objects from it, or puts a logger there, or a new
object, which is no context where there was nothing before. -/
inductive Stacks (s s' : Session) : Prop where
  | lower : s'.stack <:+ s.stack → Stacks s s'
  | logger {r : Ref} : s'.stack = r :: s.stack → s'.graph.variety? r = some .logger → Stacks s s'
  | created {r : Ref} : s'.stack = r :: s.stack → s.graph.variety? r = none →
    s'.graph.variety? r ≠ none → (s.stack = [] → s'.graph.variety? r ≠ some .context) → Stacks s s'

theorem stacks_kept (h : s'.stack = s.stack) : s.Stacks s' :=
  .lower ⟨[], h⟩

theorem Settled.becomes (h : s.Settled context) (hbecomes : s.BecomesIf sets attaches s')
    (hstacks : s.Stacks s') : s'.Settled context := by
  obtain ⟨hgrounded, hkept⟩ := hbecomes.grounded h.toGrounded
  have hstacked := h.stacked.kept hkept
  refine ⟨hgrounded, ?_⟩
  cases hstacks with
  | lower hstack => exact hstacked.lower hstack
  | logger hstack hlogger =>
    rw [hstack]
    exact hstacked.push (by rw [hlogger]; nofun) (fun _ => by rw [hlogger]; nofun)
      fun _ => hlogger
  | created hstack hnew hused hlowest =>
    rw [hstack]
    exact hstacked.push hused hlowest fun hr => absurd hnew (h.stacked.used _ hr)

end Session

/-! ### What actions push -/

/-- A nested component that an action keeps is not its own parent. -/
def ActionData.Apart : Option ActionData → Prop
  | some (.nested parent _ child) => parent ≠ child
  | _ => True

/-- Where the action begins, the stack changes as it may. -/
def Action.Opens (context : Ref) (a : Action) : Prop :=
  ∀ element attributes (s : Session) data s', a.begin element attributes s = .ok data s' →
    ActionData.Apart data ∧ (s.Settled context → s.Stacks s')

namespace Session

open LogConfig.Graph

variable {context : Ref} {s : Session}

theorem Settled.context?_eq (h : s.Settled context) {place : Ref} {c : LoggerContext}
    (hc : s.context? = some (place, c)) : place = context := by
  obtain ⟨hlast, hplace⟩ := context?_eq_some hc
  rcases h.stacked.bottom place hlast with he | hother
  · exact he
  · exact absurd (variety?_of_context? hplace) hother

/-- What the context of the session has for loggers. -/
theorem Settled.variety?_logger (h : s.Settled context) {place : Ref} {c : LoggerContext}
    (hc : s.context? = some (place, c)) {k : Ref} (hk : k ∈ c.root :: c.loggers.map Prod.snd) :
    s.graph.variety? k = some .logger := by
  obtain rfl := h.context?_eq hc
  obtain ⟨c', hc', hloggers⟩ := h.lodges
  rw [(context?_eq_some hc).2] at hc'
  cases hc'
  exact hloggers k hk

/-- The handle for a name of a logger is one of a logger. -/
theorem Settled.variety?_hasLogger (h : s.Settled context) {name : String} {graph : Graph}
    {r : Ref} (hlogger : s.HasLogger name graph r) : graph.variety? r = some .logger := by
  have added : ∀ {place : Ref} {c : LoggerContext} (l : Logger),
      s.context? = some (place, c) →
      (s.graph.addLogger place c name l).1.variety? s.graph.next = some .logger := by
    intro place c l hcontext
    have hplace := get?_of_context? (context?_eq_some hcontext).2
    unfold addLogger
    rw [variety?_put (get?_add_of_some hplace _) (by rfl)]
    exact s.graph.variety?_add_next _
  cases hlogger with
  | known hcontext hfind => exact h.variety?_logger hcontext (LoggerContext.mem_of_find? hfind)
  | plain hcontext _ => exact added _ hcontext
  | ofClass hcontext _ _ => exact added _ hcontext

/-- A new component is pushed, which is no context where there was nothing on the stack. -/
theorem stacks_created {s' : Session} {v : Variety} (hstack : s'.stack = s.graph.next :: s.stack)
    (hvariety : s'.graph.variety? s.graph.next = some v) (hlowest : s.stack = [] → v ≠ .context) :
    s.Stacks s' := by
  refine .created hstack s.graph.variety?_next ?_ fun hnil => ?_
  · rw [hvariety]
    nofun
  · rw [hvariety]
    exact fun he => hlowest hnil (Option.some.inj he)

end Session

theorem Component.variety_ne_context {c : Component} {kind : ComponentKind}
    (h : c.isKind kind = true) (hkind : kind ≠ .context) : c.variety ≠ .context := by
  cases c with
  | context c => exact absurd (by simpa [isKind, kinds] using h) hkind
  | _ =>
    intro hvariety
    cases hvariety

namespace Actions

open Phase Session LogConfig.Graph

variable {context : Ref}

/-- An action that keeps the stack where it begins, and no component for later. -/
theorem opens_of_keeps {a : Action}
    (hkeeps : ∀ name attributes, (a.begin name attributes).Keeps)
    (hdata : ∀ name attributes s, (a.begin name attributes).Yields s
      (fun data _ => ActionData.Apart data) fun _ _ => True) : a.Opens context :=
  fun name attributes s data s' hbegin => ⟨(hdata name attributes s).of_ok hbegin,
    fun _ => stacks_kept (((hkeeps name attributes).ends s).ok data s' hbegin)⟩

theorem opens_of_none {a : Action} {Q : String → Attributes → Session → Session → Prop}
    {E : Session → ConfigError → Session → Prop}
    (hkeeps : ∀ name attributes, (a.begin name attributes).Keeps)
    (hyields : ∀ name attributes s, (a.begin name attributes).Yields s
      (fun data s' => data = none ∧ Q name attributes s s') (E s)) : a.Opens context := by
  refine opens_of_keeps hkeeps fun name attributes s => ?_
  refine (hyields name attributes s).mono (fun data s' hdata => ?_) fun _ _ _ => trivial
  rw [hdata.1]
  trivial

theorem logger_opens : logger.Opens context := by
  intro element attributes s data s' hbegin
  obtain ⟨name, declared, r, leveled, graph, ds, hlogger, hlevel, hgraph, rfl, rfl⟩ :=
    (beginLogger_yields element attributes s).of_ok hbegin
  refine ⟨trivial, fun hs => .logger rfl ?_⟩
  have hdeclared := hs.variety?_hasLogger hlogger
  have hleveled := hlevel.sameHoldings.kindsKept.variety? hdeclared
  exact hgraph.sameHoldings.kindsKept.variety? hleveled

theorem rootLogger_opens : rootLogger.Opens context := by
  intro element attributes s data s' hbegin
  obtain ⟨place, c, graph, ds, hcontext, hgraph, rfl, rfl⟩ :=
    (beginRoot_yields element attributes s).of_ok hbegin
  refine ⟨trivial, fun hs => .logger rfl ?_⟩
  have hroot := hs.variety?_logger hcontext List.mem_cons_self
  exact hgraph.sameHoldings.kindsKept.variety? hroot

theorem appender_opens : appender.Opens context := by
  intro element attributes s data s' hbegin
  obtain ⟨className, c, ds, hc, rfl, hs'⟩ :=
    (beginAppender_yields element attributes s).of_ok hbegin
  have hplain := Component.variety_ne_context (ClassRegistry.isKind_of_instanceOfKind? hc) nofun
  have hnew := s.graph.variety?_add_next c
  refine ⟨trivial, fun _ => ?_⟩
  rcases hs' with rfl | ⟨name, named, hnamed, rfl⟩
  · exact stacks_created rfl hnew fun _ => hplain
  · refine stacks_created rfl (Eq.trans ?_ hnew) fun _ => hplain
    have hvariety := (Component.alike_of_setFromText hnamed).variety
    exact congrFun (variety?_put (s.graph.get?_add_next c) hvariety) _

theorem layout_opens : layout.Opens context := by
  intro element attributes s data s' hbegin
  obtain ⟨className, c, hc, rfl, rfl⟩ := (beginLayout_yields element attributes s).of_ok hbegin
  have hplain := Component.variety_ne_context (ClassRegistry.isKind_of_instanceOfKind? hc) nofun
  exact ⟨trivial, fun _ => stacks_created rfl (s.graph.variety?_add_next c) fun _ => hplain⟩

theorem nestedComponent_opens : nestedComponent.Opens context := by
  intro element attributes s data s' hbegin
  obtain ⟨parent, c, kind, className, child, htop, hc, -, -, rfl, rfl⟩ :=
    (beginNestedComponent_yields element attributes s).of_ok hbegin
  refine ⟨ne_next_of_get? hc, fun _ => stacks_created rfl (s.graph.variety?_add_next child) ?_⟩
  intro hnil
  rw [Session.top?, hnil] at htop
  cases htop

theorem nestedProperty_opens : nestedProperty.Opens context := by
  refine opens_of_keeps beginNestedProperty_keeps fun name attributes s => ?_
  refine (nestedProperty_begin_yields name attributes s).mono (fun data s' hs' => ?_)
    fun _ _ _ => trivial
  obtain ⟨parent, -, rfl, -⟩ := hs'
  trivial

theorem builtins_open : ∀ entry ∈ builtins, entry.1.Opens context := by
  unfold builtins
  simp only [List.forall_mem_cons, List.not_mem_nil, false_imp_iff, implies_true, and_true]
  refine ⟨?_, ?_, ?_, ?_, logger_opens, rootLogger_opens, ?_, appender_opens, ?_, layout_opens,
    ?_, ?_, nestedComponent_opens, nestedProperty_opens⟩
  · exact opens_of_none beginConfiguration_keeps beginConfiguration_yields
  · exact opens_of_keeps (fun _ _ => keeps_pure none) fun _ _ _ => yields_pure trivial
  · exact opens_of_none beginProperty_keeps beginProperty_yields
  · exact opens_of_none beginConversionRule_keeps beginConversionRule_yields
  · exact opens_of_none beginLevel_keeps beginLevel_yields
  · exact opens_of_none beginAppenderRef_keeps beginAppenderRef_yields
  · exact opens_of_none beginParam_keeps beginParam_yields
  · exact opens_of_none beginNewRule_keeps beginNewRule_yields

end Actions

/-! ### Sessions that stay settled -/

/-- The session becomes the other one by known changes, and is settled still if it was. -/
def Session.Proceeds (context : Ref) (s s' : Session) : Prop :=
  s.Becomes s' ∧ (s.Settled context → s'.Settled context)

/-- What an action keeps tells what it takes from the stack at most. -/
def Action.Tied (a : Action) (data : Option ActionData) : Prop :=
  (∃ pushed, a.Releases data pushed) ∧ ActionData.Apart data

namespace Session

variable {context : Ref} {s s' : Session}

theorem BecomesIf.proceeds (h : s.BecomesIf True True s')
    (hstacks : s.Settled context → s.Stacks s') :
    s.Proceeds context s' :=
  ⟨h, fun hs => hs.becomes h (hstacks hs)⟩

theorem passage_proceeds (context : Ref) :
    Passage (Proceeds context) Action.Tied where
  refl s := ⟨.refl, id⟩
  trans h h' := ⟨h.1.trans h'.1, h'.2 ∘ h.2⟩
  aside hg hb hc hstack := BecomesIf.proceeds (becomes_aside hg hb hc) fun _ => stacks_kept hstack
  copies a n data := by
    have copied : (∃ pushed, { a with instanceId := n }.Releases data pushed) ↔
        ∃ pushed, a.Releases data pushed :=
      ⟨fun ⟨pushed, h⟩ => ⟨pushed, h.body_keeps, h.body_data, h.finish_releases⟩,
        fun ⟨pushed, h⟩ => ⟨pushed, h.body_keeps, h.body_data, h.finish_releases⟩⟩
    exact and_congr_left fun _ => copied

end Session

theorem Action.Confined.within_proceeds {context : Ref} {a : Action} (hconfined : a.Confined)
    (hdisciplined : a.Disciplined) (hopens : a.Opens context) :
    a.Within (Session.Proceeds context) Action.Tied := by
  constructor
  · intro name attributes s
    have hends := hdisciplined name attributes s
    have hbecomes := hconfined.begin name attributes s
    refine ⟨hbecomes.proceeds fun hs => ?_, fun data s' hbegin => ?_⟩
    · cases hbegin : a.begin name attributes s with
      | ok data s' => exact (hopens name attributes s data s' hbegin).2 hs
      | error signal s' => exact Session.stacks_kept (hends.error signal s' hbegin)
    · obtain ⟨pushed, -, hreleases⟩ := hends.ok data s' hbegin
      exact ⟨⟨pushed, hreleases⟩, (hopens name attributes s data s' hbegin).1⟩
  · rintro name text data s ⟨⟨pushed, hreleases⟩, hapart⟩
    refine ⟨(hconfined.body name text data s).proceeds fun _ =>
      Session.stacks_kept (hreleases.body_keeps name text s), ?_⟩
    rw [hreleases.body_data]
    exact ⟨⟨pushed, hreleases⟩, hapart⟩
  · rintro name data s ⟨⟨pushed, hreleases⟩, -⟩
    refine (hconfined.finish name data s).proceeds fun _ => .lower ?_
    rw [hreleases.finish_releases name s]
    exact Phase.release_suffix pushed s.stack

namespace Configurator

theorem settled_session (c : Configurator) (hclasses : c.classes.Fresh) {g : Graph}
    (hlodges : g.Lodges c.context) (hkinded : g.WellKinded) :
    (c.session g).Settled c.context := by
  obtain ⟨properties, hsession⟩ := c.session_eq g
  rw [hsession]
  refine ⟨⟨hclasses, hlodges, hkinded, nofun⟩, fun r hr => ?_, fun r hr => ?_,
    List.pairwise_singleton _ _⟩
  · cases hr
    exact .inl rfl
  · obtain ⟨cx, hcx, -⟩ := hlodges
    rw [List.mem_singleton.1 hr, Graph.variety?_of_context? hcx]
    nofun

theorem within_proceeds (c : Configurator) (hc : c.actions = Actions.registry) (g : Graph) :
    (c.interpreter g).Acts (Action.Within (Session.Proceeds c.context) Action.Tied) := by
  have hbuiltins : ∀ entry ∈ Actions.builtins,
      entry.1.Within (Session.Proceeds c.context) Action.Tied := fun entry hentry =>
    (Actions.builtins_confined entry hentry).within_proceeds
      (Actions.builtins_disciplined entry hentry) (Actions.builtins_open entry hentry)
  exact within_interpreter (Session.passage_proceeds _) hbuiltins c hc g

end Configurator

end LogConfig
