import LogConfig.Proofs.Invariants.Settled

/-
  What the calls of a session attach. A call attaches a child in one of three ways
  (`Call.Attaches`): by a reference to an appender, at the end of a layout, or at the end of a
  nested component. A child of another kind than its parent wants is refused with a type mismatch,
  unless it is its own parent, which is refused for that (`Graph.attach_mismatch`). In a session no
  component of a built-in class is attached to itself: a layout and the object below it are two
  objects of a settled stack, and a nested component is new where its parent is looked up. So each
  attempt with a child of another kind ends with a type mismatch and changes nothing
  (`Call.Attaches.mismatch`).
-/

namespace LogConfig

/-! ### Attaching -/

/-- The property under which a component would hold a child of this name in this way, and the kind
that it wants there. -/
def Component.wanted? (c : Component) (aggregation : Aggregation) (name : String) :
    Option (String × ComponentKind) :=
  match aggregation with
  | .asProperty =>
    match Descriptor.single? c.descriptors (PropertyName.decapitalize name) with
    | some ⟨_, .slot kind⟩ => some (PropertyName.decapitalize name, kind)
    | _ => none
  | .asCollection =>
    match Descriptor.collection? c.descriptors name with
    | some ⟨property, .collection kind⟩ => some (property, kind)
    | _ => none
  | .notFound => none

/-- The component's own operation for a child that is held in this way. -/
def Component.take (c : Component) (aggregation : Aggregation) (published : String) (child : Ref) :
    Except PropertyError Component :=
  match aggregation with
  | .asProperty => c.setComponent published child
  | .asCollection => c.addComponent published child
  | .notFound => .error (.notFound published c.className)

namespace Graph

variable {g : Graph}

theorem checkAssignable_mismatch {owner child : Ref} {kind : ComponentKind} {held : Component}
    (hheld : g.get? child = some held) (hkind : held.isKind kind = false) (hne : child ≠ owner)
    (property : String) : g.checkAssignable owner property kind child =
      .error (.typeMismatch property kind.name held.className) := by
  unfold checkAssignable
  rw [if_neg hne, hheld]
  dsimp only
  rw [hkind]
  rfl

section Attach

variable {parent child : Ref} {holder held : Component} {aggregation : Aggregation}
  {name property : String} {kind : ComponentKind}

/-- A child is checked for the kind that is wanted and then given to the parent. -/
theorem attach_wanted (hholder : g.get? parent = some holder)
    (hwanted : holder.wanted? aggregation name = some (property, kind)) (child : Ref) :
    g.attach parent aggregation name child =
      ((g.checkAssignable parent property kind child).bind fun _ =>
        holder.take aggregation property child).map (g.put parent) := by
  cases aggregation with
  | notFound => cases hwanted
  | asProperty =>
    unfold Component.wanted? at hwanted
    dsimp only at hwanted
    split at hwanted
    · next published wanted hd =>
      cases hwanted
      simp only [attach, fillSlot, update, hholder, hd]
      cases g.checkAssignable parent _ kind child <;> rfl
    · cases hwanted
  | asCollection =>
    unfold Component.wanted? at hwanted
    dsimp only at hwanted
    split at hwanted
    · next published wanted hd =>
      cases hwanted
      simp only [attach, addToCollection, update, hholder, hd]
      cases g.checkAssignable parent property kind child <;> rfl
    · cases hwanted

/-- A child of another kind than the one wanted is not attached. -/
theorem attach_mismatch (hholder : g.get? parent = some holder)
    (hwanted : holder.wanted? aggregation name = some (property, kind))
    (hheld : g.get? child = some held) (hkind : held.isKind kind = false) (hne : child ≠ parent) :
    g.attach parent aggregation name child =
      .error (.typeMismatch property kind.name held.className) := by
  rw [attach_wanted hholder hwanted, checkAssignable_mismatch hheld hkind hne]
  rfl

/-- A child of the kind wanted is given to the parent. -/
theorem attach_fitting (hholder : g.get? parent = some holder)
    (hwanted : holder.wanted? aggregation name = some (property, kind))
    (hheld : g.get? child = some held) (hkind : held.isKind kind = true) (hne : child ≠ parent) :
    g.attach parent aggregation name child =
      (holder.take aggregation property child).map (g.put parent) := by
  rw [attach_wanted hholder hwanted, checkAssignable_of_isKind hne hheld hkind]
  rfl

end Attach

end Graph

/-- A logger fills no slot. -/
theorem Component.wanted?_logger {l : Logger} {aggregation : Aggregation} {name property : String}
    {kind : ComponentKind} (h : (logger l).wanted? aggregation name = some (property, kind)) :
    aggregation = .asCollection ∧ kind = .appender := by
  cases aggregation with
  | notFound => cases h
  | asProperty =>
    unfold wanted? at h
    dsimp only at h
    split at h
    · next published wanted hd =>
      have hmem := (Descriptor.mem_of_findLast? hd).1
      simp [descriptors, Logger.descriptors] at hmem
    · cases h
  | asCollection =>
    unfold wanted? at h
    dsimp only at h
    split at h
    · next published wanted hd =>
      cases h
      have hmem := (Descriptor.mem_of_findLast? hd).1
      obtain ⟨-, hkind⟩ : property = "appender" ∧ kind = .appender := by
        simpa [descriptors, Logger.descriptors] using hmem
      exact ⟨rfl, hkind⟩
    · cases h

/-- Where components of built-in classes collect under the name of appenders, they are loggers. -/
theorem Component.wanted?_appender {c : Component} (hc : c.variety ≠ .custom) {property : String}
    {kind : ComponentKind} (h : c.wanted? .asCollection "appender" = some (property, kind)) :
    kind = .appender := by
  have hcollects : c.aggregation "appender" = .asCollection := by
    unfold wanted? at h
    dsimp only at h
    split at h
    · next published wanted hd =>
      unfold aggregation
      rw [hd]
    · cases h
  have hlogger := variety_of_collects hc hcollects
  cases c with
  | logger l => exact (wanted?_logger h).2
  | _ => cases hlogger

/-! ### What calls attach -/

/-- The call is to attach a child to a parent in this way and under this name, if nothing fails
before: an appender that is referred to, to the object on top of the stack; a layout, to the object
below it; or a nested component, to the object that was on top where it began. -/
inductive Call.Attaches : Call → Ref → Aggregation → String → Ref → Prop where
  | reference {a : Action} {element title : String} {attributes : Attributes} {s : Session}
    {parent child : Ref} :
    a.begin = Actions.beginAppenderRef → s.top? = some parent →
    Phase.requiredAttribute element attributes "ref" s = .ok title s →
    s.appender? title = some child →
    Attaches (.begin a element attributes s) parent .asCollection "appender" child
  | layout {a : Action} {element : String} {s : Session} {parent child : Ref} {below : List Ref} :
    a.finish = Actions.finishLayout → s.stack = child :: parent :: below →
    Attaches (.finish a element (some (.component child)) s) parent .asProperty element child
  | nested {a : Action} {element : String} {s : Session} {parent child : Ref}
    {aggregation : Aggregation} :
    a.finish = Actions.finishNestedComponent → s.top? = some child →
    Attaches (.finish a element (some (.nested parent aggregation child)) s) parent aggregation
      element child

/-- The call fails with the error, and what components hold is as it was. -/
def Call.Fails (e : ConfigError) : Call → Prop
  | .begin a element attributes s =>
    ∃ s', a.begin element attributes s = .error (.failed e) s' ∧ s.graph.SameHoldings s'.graph
  | .body a element text data s =>
    ∃ s', (a.body element text data s).1 = .error (.failed e) s' ∧
      s.graph.SameHoldings s'.graph
  | .finish a element data s =>
    ∃ s', a.finish element data s = .error (.failed e) s' ∧ s.graph.SameHoldings s'.graph

theorem Component.className_of_activate? {c c' : Component} (h : c.activate? = some (.ok c')) :
    c'.className = c.className := by
  cases c with
  | logger _ | context _ => cases h
  | custom c =>
    obtain ⟨result, -, hresult⟩ := Option.map_eq_some_iff.1 h
    obtain ⟨_, -, rfl⟩ := exists_of_map_eq_ok hresult
    rfl
  | _ =>
    obtain ⟨_, -, rfl⟩ := exists_of_map_eq_ok (Option.some.inj h)
    rfl

namespace Session

open LogConfig.Graph

variable {context : Ref} {s : Session}

/-- Activation changes nothing but the component that is activated, whose kinds it keeps. -/
theorem graph_activated (s : Session) (r : Ref) : (s.activated r).graph = s.graph ∨
    ∃ c active, s.graph.get? r = some c ∧ c.activate? = some (.ok active) ∧
      (s.activated r).graph = s.graph.put r active := by
  unfold activated
  split
  · next active h =>
    obtain ⟨c, hc, hactive⟩ := Option.bind_eq_some_iff.1 h
    exact .inr ⟨c, active, hc, hactive, rfl⟩
  · exact .inl rfl
  · exact .inl rfl

theorem sameHoldings_activated (s : Session) (r : Ref) :
    s.graph.SameHoldings (s.activated r).graph := by
  rcases s.graph_activated r with he | ⟨c, active, hc, hactive, he⟩
  · rw [he]
    exact .refl _
  · rw [he]
    exact sameHoldings_put hc (Component.alike_of_activate? hactive)

theorem get?_activated_of_ne {r other : Ref} (h : other ≠ r) :
    (s.activated r).graph.get? other = s.graph.get? other := by
  rcases s.graph_activated r with he | ⟨c, active, -, -, he⟩
  · rw [he]
  · rw [he, get?_put_of_ne h]

theorem exists_get?_activated {r : Ref} {c : Component} (hc : s.graph.get? r = some c) :
    ∃ c', (s.activated r).graph.get? r = some c' ∧ c'.kinds = c.kinds ∧
      c'.className = c.className := by
  rcases s.graph_activated r with he | ⟨c', active, hc', hactive, he⟩
  · exact ⟨c, by rw [he, hc], rfl, rfl⟩
  · rw [hc] at hc'
    cases hc'
    refine ⟨active, ?_, (Component.alike_of_activate? hactive).kinds,
      Component.className_of_activate? hactive⟩
    rw [he, get?_put_self hc]

/-- A child of another kind than wanted is not attached after its activation either. -/
theorem attach_activated_mismatch {parent child : Ref} {holder held : Component}
    {aggregation : Aggregation} {name property : String} {kind : ComponentKind}
    (hholder : s.graph.get? parent = some holder)
    (hwanted : holder.wanted? aggregation name = some (property, kind))
    (hheld : s.graph.get? child = some held) (hkind : held.isKind kind = false)
    (hne : child ≠ parent) : (s.activated child).graph.attach parent aggregation name child =
      .error (.typeMismatch property kind.name held.className) := by
  obtain ⟨held', hheld', hkinds, hclass⟩ := exists_get?_activated hheld
  rw [← hclass]
  refine attach_mismatch ?_ hwanted hheld' ?_ hne
  · rw [get?_activated_of_ne hne.symm, hholder]
  · rwa [Component.isKind, hkinds]

end Session

theorem Phase.changeGraph_error {s : Session} {e : PropertyError}
    {f : Graph → Except PropertyError Graph} (h : f s.graph = .error e) :
    changeGraph f s = .error (.failed (.property e)) s := by
  unfold changeGraph
  rw [get_bind_run, h]
  rfl

theorem Phase.popExpected_top {r : Ref} {s : Session} (h : s.top? = some r) (what : String) :
    popExpected r what s = .ok true s.pop := by
  rw [popExpected_eq, if_pos h]

namespace Actions

open Phase Session

variable {element : String} {s : Session} {parent child : Ref} {e : PropertyError}

theorem finishLayout_error {below : List Ref} (hstack : s.stack = child :: parent :: below)
    (h : (s.activated child).graph.fillSlot parent element child = .error e) :
    finishLayout element (some (.component child)) s =
      .error (.failed (.property e)) (s.activated child).pop := by
  have htop : (s.activated child).top? = some child := by
    rw [top?_activated, Session.top?, hstack]
    rfl
  have hbelow : (s.activated child).pop.top? = some parent := by
    show (s.activated child).stack.tail.head? = some parent
    rw [stack_activated, hstack]
    rfl
  refine (bind_run_ok (activate_eq child s)).trans ?_
  refine (bind_run_ok (popExpected_top htop _)).trans ?_
  rw [if_pos rfl, get_bind_run, hbelow]
  refine (bind_run_ok (show orFail _ (some parent) _ = .ok parent _ from rfl)).trans ?_
  exact changeGraph_error h

theorem finishNestedComponent_error {aggregation : Aggregation} (htop : s.top? = some child)
    (h : (s.activated child).graph.attach parent aggregation element child = .error e) :
    finishNestedComponent element (some (.nested parent aggregation child)) s =
      .error (.failed (.property e)) (s.activated child).pop := by
  have htop' : (s.activated child).top? = some child := by rw [top?_activated, htop]
  refine (bind_run_ok (activate_eq child s)).trans ?_
  refine (bind_run_ok (popExpected_top htop' _)).trans ?_
  rw [if_pos rfl]
  exact changeGraph_error h

end Actions

/-- A call in a settled session that is to attach a child of another kind than a component of a
built-in class wants fails for the type of the child. -/
theorem Call.Attaches.mismatch {context : Ref} {call : Call} {parent child : Ref}
    {aggregation : Aggregation} {name : String} (h : call.Attaches parent aggregation name child)
    (hsettled : call.session.Settled context) (hdata : call.Carries Action.Tied)
    {holder held : Component} (hholder : call.session.graph.get? parent = some holder)
    (hbuiltin : holder.variety ≠ .custom) {property : String} {kind : ComponentKind}
    (hwanted : holder.wanted? aggregation name = some (property, kind))
    (hheld : call.session.graph.get? child = some held) (hkind : held.isKind kind = false) :
    call.Fails (.property (.typeMismatch property kind.name held.className)) := by
  cases h with
  | @reference a element title attributes s _ _ _ htop _ hbag =>
    -- whatever is kept by a name is an appender
    obtain rfl := Component.wanted?_appender hbuiltin hwanted
    obtain ⟨kept, hkept, happender⟩ := hsettled.kinded.bag _ (Entries.mem_of_find? hbag)
    rw [hheld] at hkept
    cases hkept
    rw [happender] at hkind
    cases hkind
  | @layout a element s _ _ below hfinish hstack =>
    have hne : child ≠ parent := by
      -- twice on the stack there can only be a logger, which has no slot to fill
      rintro rfl
      have hstacked : s.graph.Stacked context s.stack := hsettled.stacked
      rw [hstack] at hstacked
      have hlogger := (List.pairwise_cons.1 hstacked.once).1 child List.mem_cons_self rfl
      have hvariety : s.graph.variety? child = some holder.variety :=
        Graph.variety?_of_get? hholder
      rw [hvariety, Option.some.injEq] at hlogger
      cases holder with
      | logger l => cases (Component.wanted?_logger hwanted).1
      | _ => cases hlogger
    have hrefused := Session.attach_activated_mismatch hholder hwanted hheld hkind hne
    refine ⟨(s.activated child).pop, ?_, s.sameHoldings_activated child⟩
    rw [hfinish]
    exact Actions.finishLayout_error hstack hrefused
  | @nested a element s _ _ _ hfinish htop =>
    have hne : child ≠ parent := Ne.symm hdata.2
    have hrefused := Session.attach_activated_mismatch hholder hwanted hheld hkind hne
    refine ⟨(s.activated child).pop, ?_, s.sameHoldings_activated child⟩
    rw [hfinish]
    exact Actions.finishNestedComponent_error htop hrefused

/-! ### Sessions -/

/-- If the call is to attach a child of another kind than a component of a built-in class wants, it
fails with a type mismatch. -/
def Call.RefusesMisfits (call : Call) : Prop :=
  ∀ parent aggregation name child, call.Attaches parent aggregation name child →
    ∀ holder held, call.session.graph.get? parent = some holder → holder.variety ≠ .custom →
    call.session.graph.get? child = some held →
    ∀ property kind, holder.wanted? aggregation name = some (property, kind) →
      held.isKind kind = false →
      call.Fails (.property (.typeMismatch property kind.name held.className))

namespace Configurator

/-- Children are of the kinds they are wanted for. Take any session over a new context, with any
classes beside the built-in ones whose instances hold nothing when they are made. In every state
that it goes through, whatever a component of a built-in class holds is of the kind wanted there,
and the appenders kept by name are appenders. From each state to a later one, what such components
hold changes only where a child is attached, after a check of its kind. And every call that is to
attach a child of another kind to such a component fails with a type mismatch, and attaches
nothing. -/
theorem course_well_kinded (name : String) {classes : ClassRegistry} (hclasses : classes.Fresh)
    (options : SessionOptions) (environment : Environment) (source : String) :
    let g := (Graph.addContext {} name).1
    let c : Configurator :=
      { context := (Graph.addContext {} name).2, classes, options, environment }
    (∀ s ∈ c.course g source, s.WellKinded) ∧
    ((c.course g source).Pairwise fun s s' =>
      Relation.ReflTransGen Graph.Shifts s.graph s'.graph) ∧
    ∀ call ∈ c.calls g source, call.RefusesMisfits := by
  intro g c
  have hlodges : g.Lodges c.context := (Graph.wellFormed_addContext (g := {}) nofun name).loggers
  have hstart : (c.session g).Settled c.context :=
    c.settled_session hclasses hlodges (Graph.wellKinded_addContext name)
  have hwithin := c.within_proceeds rfl g
  obtain ⟨hpairs, hbounds⟩ :=
    course_pairwise (Session.passage_proceeds c.context) c hwithin source
  have hsettled : ∀ s ∈ c.course g source, s.Settled c.context :=
    fun s hs => (hbounds s hs).1.2 hstart
  refine ⟨fun s hs => (hsettled s hs).kinded, hpairs.imp_of_mem fun {s s'} hs _ h => ?_,
    fun call hcall => ?_⟩
  · obtain ⟨-, hshifts, -⟩ := h.1.wellKinded (hsettled s hs).classes (hsettled s hs).kinded
    exact hshifts
  · obtain ⟨⟨-, hkept⟩, htied⟩ :=
      calls_within (Session.passage_proceeds c.context) c hwithin source call hcall
    intro parent aggregation title child hattaches holder held hholder hbuiltin hheld property
      kind hwanted hkind
    exact hattaches.mismatch (hkept hstart) htied hholder hbuiltin hwanted hheld hkind

/-- A document that gives an appender a layout for its encoder, one of a class that was registered
beside the built-in ones. -/
theorem course_well_kinded_misfit :
    let classes := ClassRegistry.builtins.register "TagLayout"
      (.custom { type := CustomClass.storing "TagLayout" [.layout] [] fun _ _ => none })
    let g := (Graph.addContext {} "test").1
    let c : Configurator := { context := (Graph.addContext {} "test").2, classes }
    let source := "<configuration><newRule pattern=\"configuration/appender/encoder\" " ++
      "actionClass=\"LayoutAction\"/><appender name=\"A\" class=\"ConsoleAppender\">" ++
      "<encoder class=\"TagLayout\"/></appender></configuration>"
    classes.Fresh ∧
    (c.run g source).diagnostics.filterMap Diagnostic.cause =
      [(PropertyError.typeMismatch "encoder" "Encoder" "TagLayout").message] ∧
    (∀ s ∈ c.course g source, s.WellKinded) ∧
    ((c.course g source).Pairwise fun s s' =>
      Relation.ReflTransGen Graph.Shifts s.graph s'.graph) ∧
    ∀ call ∈ c.calls g source, call.RefusesMisfits := by
  intro classes g c source
  have hclasses : classes.Fresh := ClassRegistry.fresh_builtins.register rfl
  exact ⟨hclasses, by decide +kernel, course_well_kinded "test" hclasses {} {} source⟩

end Configurator
end LogConfig
