import LogConfig.Proofs.Dispatch.Rules
import LogConfig.Proofs.Effects.Components

/-
  Component graphs as the life of a component sees them. Of a component only two things count: its
  variety, which no operation changes, and its children, which only attaching extends. Both are
  read off a graph as functions of the handle, so an operation on one component leaves them equal
  as functions (`variety?_put`, `childrenOf_put`) where it keeps the variety and the children.
-/

namespace LogConfig

/-! ### Components -/

namespace Component

/-- The component, not a context, was changed into one of its variety, with its children and
further ones. -/
structure ChangedTo (c c' : Component) (added : List Ref) : Prop where
  plain : c.variety ≠ .context
  variety : c'.variety = c.variety
  children : ∀ r ∈ c'.children, r ∈ c.children ∨ r ∈ added

theorem changedTo_of_alike {c c' : Component} (h : c.Alike c') (hcontext : c.variety ≠ .context)
    (hcustom : c.variety ≠ .custom) : c.ChangedTo c' [] := by
  refine ⟨hcontext, h.variety, fun r hr => .inl ?_⟩
  rw [children_eq_holdings (by rw [h.variety]; exact hcustom), h.holdings] at hr
  rwa [children_eq_holdings hcustom]

theorem changedTo_of_gains {c c' : Component} {kind : ComponentKind} {child : Ref}
    (h : c.Gains c' kind child) (hcontext : c.variety ≠ .context)
    (hcustom : c.variety ≠ .custom) : c.ChangedTo c' [child] := by
  refine ⟨hcontext, h.variety, fun r hr => ?_⟩
  rw [children_eq_holdings (by rw [h.variety]; exact hcustom)] at hr
  obtain ⟨held, hheld, rfl⟩ := List.mem_map.1 hr
  rw [children_eq_holdings hcustom]
  rcases h.holdings held hheld with hheld | rfl
  · exact .inl (List.mem_map_of_mem hheld)
  · exact .inr List.mem_cons_self

theorem changedTo_of_setFromText {c c' : Component} {name text : String}
    (hc : c.variety ≠ .custom) (h : c.setFromText name text = .ok c') : c.ChangedTo c' [] := by
  refine changedTo_of_alike (alike_of_setFromText h) (fun hcontext => ?_) hc
  cases c with
  | context c => cases h
  | _ => cases hcontext

theorem changedTo_of_activate? {c c' : Component} (hlife : c.variety = .lifecycle)
    (h : c.activate? = some (.ok c')) : c.ChangedTo c' [] :=
  changedTo_of_alike (alike_of_activate? h) (by rw [hlife]; nofun) (by rw [hlife]; nofun)

end Component

/-! ### What components publish -/

namespace Component

/-- What the components of the built-in classes publish. -/
def publishing : List (Variety × List Descriptor) :=
  [(.lifecycle, ConsoleAppender.descriptors), (.lifecycle, FileAppender.descriptors),
   (.lifecycle, PatternLayout.descriptors), (.lifecycle, PatternLayoutEncoder.descriptors),
   (.lifecycle, ThresholdFilter.descriptors), (.lifecycle, LevelFilter.descriptors),
   (.logger, Logger.descriptors), (.context, [])]

theorem mem_publishing {c : Component} (hc : c.variety ≠ .custom) :
    (c.variety, c.descriptors) ∈ publishing := by
  cases c with
  | custom c => exact absurd rfl hc
  | _ => simp [publishing, variety, descriptors]

/-- Only loggers collect appenders. -/
theorem variety_of_collects {c : Component} (hc : c.variety ≠ .custom)
    (h : c.aggregation "appender" = .asCollection) : c.variety = .logger := by
  have loggers : ∀ entry ∈ publishing, ∀ d ∈ entry.2,
      (d.isCollection && PropertyName.capitalize d.name == PropertyName.capitalize "appender") →
        entry.1 = .logger := by decide +kernel
  unfold aggregation at h
  split at h
  · next kind hd =>
    obtain ⟨hmem, hp⟩ := Descriptor.mem_of_findLast? hd
    exact loggers _ (mem_publishing hc) _ hmem hp
  · split at h
    · cases h
    · cases h

/-- The kinds of the components with a lifecycle. -/
def lifecycleKinds : List ComponentKind := [.appender, .encoder, .layout, .filter]

/-- The children of a component are to have a lifecycle, and a context holds none. -/
theorem childKind?_spec {c : Component} (hc : c.variety ≠ .custom) {name : String}
    {kind : ComponentKind} (h : c.childKind? name = some kind) :
    c.variety ≠ .context ∧ kind ∈ lifecycleKinds := by
  have kinds : ∀ entry ∈ publishing, ∀ d ∈ entry.2, ∀ kind ∈ d.childKind?,
      entry.1 ≠ .context ∧ kind ∈ lifecycleKinds := by decide +kernel
  have published := kinds _ (mem_publishing hc)
  unfold childKind? at h
  split at h
  · next k hd =>
    cases h
    exact published _ (Descriptor.mem_of_findLast? hd).1 kind rfl
  · split at h
    · next k hd =>
      cases h
      exact published _ (Descriptor.mem_of_findLast? hd).1 kind rfl
    · cases h

end Component

/-- What a context has under a name is its root logger or one of the others. -/
theorem LoggerContext.mem_of_find? {c : LoggerContext} {name : String} {r : Ref}
    (h : c.find? name = some r) : r ∈ c.root :: c.loggers.map Prod.snd := by
  unfold find? at h
  split at h
  · cases h
    exact List.mem_cons_self
  · exact List.mem_cons_of_mem _ (List.mem_map_of_mem (Entries.mem_of_find? h))

namespace ClassRegistry

/-- The built-in classes make components without children: loggers, or ones with a lifecycle. -/
theorem builtins_prototypes : ∀ entry ∈ builtins.prototypes, entry.2.children = [] ∧
    (entry.2.variety = .lifecycle ∨ entry.2.kinds = [.logger]) := by decide +kernel

theorem isKind_of_instanceOfKind? {reg : ClassRegistry} {name : String} {kind : ComponentKind}
    {c : Component} (h : reg.instanceOfKind? name kind = .ok c) : c.isKind kind = true := by
  unfold instanceOfKind? at h
  split at h
  · split at h
    · next hkind =>
      cases h
      exact hkind
    · cases h
  · cases h

/-- What a class is instantiated by is the prototype of one. -/
theorem mem_of_instanceOfKind? {reg : ClassRegistry} {name : String} {kind : ComponentKind}
    {c : Component} (h : reg.instanceOfKind? name kind = .ok c) :
    ∃ entry ∈ reg.prototypes, entry.2 = c := by
  unfold instanceOfKind? at h
  split at h
  · next found hfound =>
    split at h
    · cases h
      unfold instance? at hfound
      split at hfound
      · cases hfound
      · split at hfound
        · next prototype hprototype =>
          cases hfound
          exact ⟨_, Entries.mem_of_find? hprototype, rfl⟩
        · cases hfound
    · cases h
  · cases h

theorem instanceOfKind?_builtins {className : String} {kind : ComponentKind} {c : Component}
    (h : builtins.instanceOfKind? className kind = .ok c) :
    c.children = [] ∧ (kind ∈ Component.lifecycleKinds → c.variety = .lifecycle) := by
  have hkind := isKind_of_instanceOfKind? h
  obtain ⟨entry, hentry, rfl⟩ := mem_of_instanceOfKind? h
  obtain ⟨hchildren, hvariety⟩ := builtins_prototypes entry hentry
  refine ⟨hchildren, fun hlifecycle => ?_⟩
  rcases hvariety with hvariety | hvariety
  · exact hvariety
  · -- no kind with a lifecycle is that of a logger
    rw [Component.isKind, hvariety, List.contains_iff_mem, List.mem_singleton] at hkind
    subst hkind
    exact absurd hlifecycle (by decide)

end ClassRegistry

/-! ### Graphs -/

namespace Graph

/-- The variety of the component under a handle in use. -/
def variety? (g : Graph) (r : Ref) : Option Variety := (g.get? r).map Component.variety

/-- The children of the component under a handle. -/
def childrenOf (g : Graph) (r : Ref) : List Ref := ((g.get? r).map Component.children).getD []

/-- No component holds this one. -/
def Detached (g : Graph) (r : Ref) : Prop := ∀ holder, r ∉ g.childrenOf holder

/-- A graph that a logger context can be configured in: whatever is held is there, and what the
context has for loggers is loggers. -/
structure WellFormed (context : Ref) (g : Graph) : Prop where
  held : ∀ holder, ∀ r ∈ g.childrenOf holder, g.variety? r ≠ none
  loggers : ∃ c, g.context? context = some c ∧
    ∀ r ∈ c.root :: c.loggers.map Prod.snd, g.variety? r = some .logger

variable {g : Graph} {r : Ref}

theorem variety?_eq_some {v : Variety} :
    g.variety? r = some v ↔ ∃ c, g.get? r = some c ∧ c.variety = v := by
  unfold variety?
  rw [Option.map_eq_some_iff]

theorem variety?_of_get? {c : Component} (h : g.get? r = some c) :
    g.variety? r = some c.variety := by
  rw [variety?, h, Option.map_some]

theorem childrenOf_of_get? {c : Component} (h : g.get? r = some c) :
    g.childrenOf r = c.children := by
  rw [childrenOf, h]
  rfl

theorem variety?_next (g : Graph) : g.variety? g.next = none := by
  rw [variety?, get?_next]
  rfl

theorem ne_next_of_variety? (h : g.variety? r ≠ none) : r ≠ g.next := by
  rintro rfl
  exact h g.variety?_next

/-- No operation changes the variety of a component. -/
theorem variety?_put {c c' : Component} (h : g.get? r = some c) (hv : c'.variety = c.variety) :
    (g.put r c').variety? = g.variety? := by
  funext other
  unfold variety?
  rw [get?_put]
  split
  · next he =>
    rw [he, h]
    exact congrArg some hv
  · rfl

theorem childrenOf_put {c c' : Component} (h : g.get? r = some c) (other : Ref) :
    (g.put r c').childrenOf other = if other = r then c'.children else g.childrenOf other := by
  unfold childrenOf
  rw [get?_put]
  split
  · next he =>
    rw [he, h]
    rfl
  · rfl

theorem variety?_add_next (g : Graph) (c : Component) :
    (g.add c).variety? g.next = some c.variety := by
  rw [variety?, get?_add_next, Option.map_some]

theorem variety?_add (c : Component) (h : g.variety? r ≠ none) :
    (g.add c).variety? r = g.variety? r := by
  unfold variety?
  rw [get?_add, if_neg (ne_next_of_variety? h)]

/-- A component is added without children. -/
theorem childrenOf_add {c : Component} (hc : c.children = []) :
    (g.add c).childrenOf = g.childrenOf := by
  funext other
  unfold childrenOf
  rw [get?_add]
  split
  · next he => rw [he, get?_next, Option.map_some, hc]; rfl
  · rfl

theorem variety?_of_context? {c : LoggerContext} (h : g.context? r = some c) :
    g.variety? r = some .context :=
  variety?_of_get? (get?_of_context? h)

theorem variety?_of_logger? {l : Logger} (h : g.logger? r = some l) :
    g.variety? r = some .logger :=
  variety?_of_get? (get?_of_logger? h)

/-- Attaching changes the parent, which holds the child then. -/
theorem Attached.changedTo {g' : Graph} {child : Ref} (h : g.Attached r child g')
    (hr : g.variety? r ≠ some .custom) :
    ∃ c c', g.get? r = some c ∧ c.ChangedTo c' [child] ∧ g' = g.put r c' := by
  obtain ⟨c, c', held, kind, hc, hcontext, -, -, -, hgains, rfl⟩ := h.gains
  refine ⟨c, c', hc, Component.changedTo_of_gains hgains hcontext fun hcustom => hr ?_, rfl⟩
  rw [variety?_of_get? hc, hcustom]

/-- A changed component has the children it had, and what was added. -/
theorem mem_childrenOf_put {c c' : Component} {added : List Ref} (hc : g.get? r = some c)
    (hchildren : ∀ k ∈ c'.children, k ∈ c.children ∨ k ∈ added) {holder k : Ref}
    (hk : k ∈ (g.put r c').childrenOf holder) : k ∈ g.childrenOf holder ∨ k ∈ added := by
  rw [childrenOf_put hc] at hk
  split at hk
  · next he =>
    rw [he, childrenOf_of_get? hc]
    exact hchildren k hk
  · exact .inl hk

/-- A component can be changed, if it keeps its variety and takes only components that are there
for further children. -/
theorem WellFormed.put {context : Ref} (h : g.WellFormed context) {c c' : Component}
    (added : List Ref) (hc : g.get? r = some c) (hvariety : c'.variety = c.variety)
    (hchildren : ∀ k ∈ c'.children, k ∈ c.children ∨ k ∈ added)
    (hadded : ∀ k ∈ added, g.variety? k ≠ none)
    (hloggers : ∀ cx, c' = .context cx → ∀ k ∈ cx.root :: cx.loggers.map Prod.snd,
      g.variety? k = some .logger) : (g.put r c').WellFormed context := by
  refine ⟨fun holder k hk => ?_, ?_⟩
  · rw [variety?_put hc hvariety]
    rcases mem_childrenOf_put hc hchildren hk with hk | hk
    · exact h.held holder k hk
    · exact hadded k hk
  · rw [variety?_put hc hvariety]
    obtain ⟨cx, hcx, hlogger⟩ := h.loggers
    by_cases he : context = r
    · subst he
      have hkept : c'.variety = .context := by
        rw [hvariety]
        exact Option.some.inj ((variety?_of_get? hc).symm.trans (variety?_of_context? hcx))
      cases c' with
      | context cx' =>
        refine ⟨cx', ?_, hloggers cx' rfl⟩
        unfold context?
        rw [get?_put_self hc]
      | _ => cases hkept
    · refine ⟨cx, ?_, hlogger⟩
      unfold context?
      rw [get?_put_of_ne he]
      exact hcx

theorem WellFormed.add {context : Ref} (h : g.WellFormed context) {c : Component}
    (hc : c.children = []) : (g.add c).WellFormed context := by
  refine ⟨fun holder k hk => ?_, ?_⟩
  · rw [childrenOf_add hc] at hk
    have hused := h.held holder k hk
    rw [variety?_add c hused]
    exact hused
  · obtain ⟨cx, hcx, hlogger⟩ := h.loggers
    refine ⟨cx, ?_, fun k hk => ?_⟩
    · unfold context?
      rw [get?_add_of_some (get?_of_context? hcx)]
    · rw [variety?_add c (by rw [hlogger k hk]; nofun), hlogger k hk]

/-- Where there was nothing, a new context comes with its root logger and nothing else. -/
theorem cells_addContext (name : String) {r : Ref} {c : Component}
    (hc : (addContext {} name).1.get? r = some c) :
    (r = (addContext {} name).2 ∧ c = .context { name, root := ({} : Graph).next }) ∨
      c = .logger LoggerContext.newRoot := by
  let withRoot := ({} : Graph).add (.logger LoggerContext.newRoot)
  rw [show (addContext {} name).1 = withRoot.add _ from rfl, get?_add] at hc
  split at hc
  · next hr => exact .inl ⟨hr, (Option.some.inj hc).symm⟩
  · rw [show withRoot = Graph.add {} _ from rfl, get?_add] at hc
    split at hc
    · exact .inr (Option.some.inj hc).symm
    · cases hc

/-- A new context can be configured. -/
theorem wellFormed_addContext (h : ∀ holder, ∀ r ∈ g.childrenOf holder, g.variety? r ≠ none)
    (name : String) : (g.addContext name).1.WellFormed (g.addContext name).2 := by
  let withRoot := g.add (.logger LoggerContext.newRoot)
  have hroot : withRoot.variety? g.next = some .logger := variety?_add_next g _
  have hchildren : (g.addContext name).1.childrenOf = g.childrenOf :=
    (childrenOf_add (g := withRoot) rfl).trans (childrenOf_add rfl)
  refine ⟨fun holder r hr => ?_, { name, root := g.next }, ?_, fun r hr => ?_⟩
  · rw [hchildren] at hr
    have hused := h holder r hr
    have hwith : withRoot.variety? r = g.variety? r := variety?_add _ hused
    show (withRoot.add _).variety? r ≠ none
    rw [variety?_add _ (by rw [hwith]; exact hused), hwith]
    exact hused
  · show (withRoot.add _).context? withRoot.next = _
    unfold context?
    rw [get?_add_next]
  · rw [List.mem_singleton.1 hr]
    show (withRoot.add _).variety? g.next = _
    rw [variety?_add _ (by rw [hroot]; nofun), hroot]

/-- A component that is not in use yet is held by none. -/
theorem WellFormed.detached {context : Ref} (h : g.WellFormed context) (hr : g.variety? r = none) :
    g.Detached r := fun holder hmem => h.held holder r hmem hr

end Graph
end LogConfig
