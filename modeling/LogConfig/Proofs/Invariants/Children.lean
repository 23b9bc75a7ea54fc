import LogConfig.Proofs.Invariants.Loggers
import LogConfig.Proofs.Invariants.Settled

/-
  What components come to hold when further classes are registered, too. A class is trusted to store
  children: what a component of it holds are children that it was given (`CustomClass.Stores`). Then
  a component of any class holds one child more only where it is attached, and everything else that
  a session does to its graph leaves all components with the children they had, or fewer, and the
  context with its loggers (`Session.BecomesIf.grows`).
-/

namespace LogConfig

/-! ### Classes that store -/

namespace Fields

/-- What is in the slots and collections. -/
def children (f : Fields) : List Ref :=
  f.slots.map Prod.snd ++ (f.collections.map Prod.snd).flatten

theorem mem_children {f : Fields} {r : Ref} :
    r ∈ f.children ↔ (∃ name, (name, r) ∈ f.slots) ∨
      ∃ members, (∃ name, (name, members) ∈ f.collections) ∧ r ∈ members := by
  simp [children]

theorem children_setSlot (f : Fields) (name : String) (child : Ref) :
    (f.setSlot name child).children ⊆ child :: f.children := by
  intro r hr
  rw [List.mem_cons, mem_children]
  rcases mem_children.1 hr with ⟨slot, hslot⟩ | hmember
  · rcases Entries.mem_insert hslot with he | hslot
    · cases he
      exact .inl rfl
    · exact .inr (.inl ⟨slot, hslot⟩)
  · exact .inr (.inr hmember)

theorem children_addTo (f : Fields) (name : String) (child : Ref) :
    (f.addTo name child).children ⊆ child :: f.children := by
  intro r hr
  rw [List.mem_cons, mem_children]
  rcases mem_children.1 hr with hslot | ⟨members, ⟨collection, hcollection⟩, hmember⟩
  · exact .inr (.inl hslot)
  · rcases Entries.mem_insert hcollection with he | hcollection
    · cases he
      rcases List.mem_append.1 hmember with hmember | hmember
      · unfold Fields.members at hmember
        cases hfind : Entries.find? name f.collections with
        | none =>
          rw [hfind] at hmember
          cases hmember
        | some before =>
          rw [hfind] at hmember
          exact .inr (.inr ⟨before, ⟨name, Entries.mem_of_find? hfind⟩, hmember⟩)
      · exact .inl (List.mem_singleton.1 hmember)
    · exact .inr (.inr ⟨members, ⟨collection, hcollection⟩, hmember⟩)

end Fields

/-- Components of the class store the children that they are given. They come to hold nothing else,
and nothing when a value is set or when they are activated. -/
structure CustomClass.Stores (type : CustomClass) : Prop where
  setProperty : ∀ {f f' : Fields} {name : String} {value : Value},
    type.setProperty f name value = .ok f' → f'.children ⊆ f.children
  setComponent : ∀ {f f' : Fields} {name : String} {child : Ref},
    type.setComponent f name child = .ok f' → f'.children ⊆ child :: f.children
  addComponent : ∀ {f f' : Fields} {name : String} {child : Ref},
    type.addComponent f name child = .ok f' → f'.children ⊆ child :: f.children
  activate : ∀ {f f' : Fields}, type.activate f = some (.ok f') → f'.children ⊆ f.children

theorem CustomClass.stores_storing (name : String) (kinds : List ComponentKind)
    (descriptors : List Descriptor) (objection : String → Value → Option String) :
    (storing name kinds descriptors objection).Stores := by
  constructor
  · intro f f' property value h
    unfold storing at h
    dsimp only at h
    split at h
    · cases h
    · cases h
      exact List.Subset.refl _
  · intro f f' slot child h
    cases h
    exact f.children_setSlot slot child
  · intro f f' collection child h
    cases h
    exact f.children_addTo collection child
  · intro f f' h
    cases h

/-- If the component is of a registered class, the class stores. -/
def Component.Stores : Component → Prop
  | custom c => c.type.Stores
  | _ => True

/-- The registered classes store. -/
def ClassRegistry.Stores (reg : ClassRegistry) : Prop := ∀ entry ∈ reg.prototypes, entry.2.Stores

/-- The classes of the components in the graph store. -/
def Graph.Stores (g : Graph) : Prop := ∀ r c, g.get? r = some c → c.Stores

namespace Component

theorem stores_of_plain {c : Component} (h : c.variety ≠ .custom) : c.Stores := by
  cases c with
  | custom c => exact absurd rfl h
  | _ => trivial

variable {c c' : Component}

/-- The change of a component of a built-in class. -/
theorem ChangedTo.stores {added : List Ref} (h : c.ChangedTo c' added) (hc : c.variety ≠ .custom) :
    c'.Stores := by
  refine stores_of_plain ?_
  rwa [h.variety]

theorem Stores.setFromText {name text : String} (hc : c.Stores)
    (h : c.setFromText name text = .ok c') : c'.Stores ∧ c.ChangedTo c' [] := by
  by_cases hcustom : c.variety = .custom
  · cases c with
    | custom c =>
      unfold Component.setFromText at h
      dsimp only at h
      repeat' split at h
      all_goals try cases h
      obtain ⟨fields, hfields, rfl⟩ := exists_of_map_eq_ok h
      have hc : c.type.Stores := hc
      exact ⟨hc, nofun, rfl, fun r hr => .inl (hc.setProperty hfields hr)⟩
    | _ => cases hcustom
  · have hchanged := changedTo_of_setFromText hcustom h
    exact ⟨hchanged.stores hcustom, hchanged⟩

theorem Stores.activate? (hc : c.Stores) (h : c.activate? = some (.ok c')) :
    c'.Stores ∧ c.ChangedTo c' [] := by
  rcases variety_of_activate? (by rw [h]; nofun) with hlife | hcustom
  · have hchanged := changedTo_of_activate? hlife h
    exact ⟨hchanged.stores (by rw [hlife]; nofun), hchanged⟩
  · cases c with
    | custom c =>
      obtain ⟨result, hresult, hmap⟩ := Option.map_eq_some_iff.1 h
      obtain ⟨fields, rfl, rfl⟩ := exists_of_map_eq_ok hmap
      have hc : c.type.Stores := hc
      exact ⟨hc, nofun, rfl, fun r hr => .inl (hc.activate hresult hr)⟩
    | _ => cases hcustom

/-- A component that takes a child into a place that it publishes. -/
theorem Stores.gains {kind : ComponentKind} {child : Ref} (hplain : c.variety ≠ .context)
    (hgains : c.Gains c' kind child)
    (hcustom : ∀ held, c = .custom held → ∃ fields : Fields, c' = .custom { held with fields } ∧
      fields.children ⊆ child :: held.fields.children) (hc : c.Stores) :
    c'.Stores ∧ c.ChangedTo c' [child] := by
  by_cases hv : c.variety = .custom
  · cases c with
    | custom held =>
      obtain ⟨fields, rfl, hchildren⟩ := hcustom held rfl
      refine ⟨hc, hplain, rfl, fun r hr => ?_⟩
      exact (List.mem_cons.1 (hchildren hr)).symm.imp_right List.mem_singleton.2
    | _ => cases hv
  · have hchanged := changedTo_of_gains hgains hplain hv
    exact ⟨hchanged.stores hv, hchanged⟩

end Component

/-- What attaching comes to, whatever the class of the parent: it holds what it held, and maybe the
child. -/
theorem Graph.Attached.stored {g g' : Graph} {r child : Ref} (h : g.Attached r child g')
    (hg : g.Stores) : ∃ c c', g.get? r = some c ∧ c'.Stores ∧ c.ChangedTo c' [child] ∧
      g' = g.put r c' := by
  cases h with
  | @slot c c' held name published kind hc hd hne hheld hkind hset =>
    have hmem := Descriptor.mem_of_single? hd
    have hchanged := Component.Stores.gains (Component.plain_of_mem hmem)
      (Component.gains_of_setComponent hset hmem) (fun custom he => ?_) (hg r c hc)
    · exact ⟨c, c', hc, hchanged.1, hchanged.2, rfl⟩
    · subst he
      have hstores : custom.type.Stores := hg r _ hc
      obtain ⟨fields, hfields, rfl⟩ := Component.exists_of_map_eq_ok hset
      exact ⟨fields, rfl, hstores.setComponent hfields⟩
  | @member c c' held name property kind hc hd hne hheld hkind hadd =>
    have hmem := (Descriptor.mem_of_findLast? hd).1
    have hchanged := Component.Stores.gains (Component.plain_of_mem hmem)
      (Component.gains_of_addComponent hadd hmem) (fun custom he => ?_) (hg r c hc)
    · exact ⟨c, c', hc, hchanged.1, hchanged.2, rfl⟩
    · subst he
      have hstores : custom.type.Stores := hg r _ hc
      obtain ⟨fields, hfields, rfl⟩ := Component.exists_of_map_eq_ok hadd
      exact ⟨fields, rfl, hstores.addComponent hfields⟩

/-! ### Graphs that grow -/

namespace Graph

variable {context : Ref} {g g' g'' : Graph} {links links' : List (Ref × Ref)}

/-- The component is a logger of the context. -/
def IsLoggerOf (context : Ref) (g : Graph) (r : Ref) : Prop :=
  ∃ c, g.context? context = some c ∧ r ∈ c.root :: c.loggers.map Prod.snd

/-- The graph later: all components are still there and hold what they held, or less, and the
children that they were linked to; and of these components the same ones are loggers of the
context. -/
structure Grows (context : Ref) (links : List (Ref × Ref)) (g g' : Graph) : Prop where
  stores : g'.Stores
  used : ∀ r, g.variety? r ≠ none → g'.variety? r ≠ none
  children : ∀ u, ∀ v ∈ g'.childrenOf u, v ∈ g.childrenOf u ∨ (u, v) ∈ links
  loggers : ∀ r, g.variety? r ≠ none → (g'.IsLoggerOf context r ↔ g.IsLoggerOf context r)

theorem Grows.refl (hg : g.Stores) : g.Grows context [] g :=
  ⟨hg, fun _ h => h, fun _ _ h => .inl h, fun _ _ => Iff.rfl⟩

theorem Grows.trans (h : g.Grows context links g') (h' : g'.Grows context links' g'') :
    g.Grows context (links ++ links') g'' := by
  refine ⟨h'.stores, fun r hr => h'.used r (h.used r hr), fun u v hv => ?_, fun r hr =>
    (h'.loggers r (h.used r hr)).trans (h.loggers r hr)⟩
  rw [List.mem_append]
  rcases h'.children u v hv with hv | hlink
  · exact (h.children u v hv).imp_right .inl
  · exact .inr (.inr hlink)

theorem Lodges.variety?_logger (h : g.Lodges context) {r : Ref} (hr : g.IsLoggerOf context r) :
    g.variety? r = some .logger := by
  obtain ⟨c, hc, hloggers⟩ := h
  obtain ⟨c', hc', hmem⟩ := hr
  rw [hc] at hc'
  cases hc'
  exact hloggers r hmem

theorem isLoggerOf_of_context? (h : g'.context? context = g.context? context) (r : Ref) :
    g'.IsLoggerOf context r ↔ g.IsLoggerOf context r := by
  unfold IsLoggerOf
  rw [h]

theorem stores_put (hg : g.Stores) {r : Ref} {c' : Component} (hc' : c'.Stores) :
    (g.put r c').Stores := by
  intro other held hheld
  rw [get?_put] at hheld
  split at hheld
  · obtain ⟨_, -, rfl⟩ := Option.map_eq_some_iff.1 hheld
    exact hc'
  · exact hg other held hheld

/-- A component is changed, and maybe takes children. -/
theorem Lodges.grows_put (h : g.Lodges context) (hg : g.Stores) {r : Ref} {c c' : Component}
    {added : List Ref} (hc : g.get? r = some c) (hc' : c'.Stores)
    (hchanged : c.ChangedTo c' added) :
    g.Grows context (added.map (r, ·)) (g.put r c') := by
  refine ⟨stores_put hg hc', fun other hother => ?_, fun u v hv => ?_, fun other _ =>
    isLoggerOf_of_context? (h.context?_put hc hchanged.plain c') other⟩
  · rwa [variety?_put hc hchanged.variety]
  · rw [childrenOf_put hc] at hv
    split at hv
    · next hu =>
      subst hu
      rw [childrenOf_of_get? hc]
      exact (hchanged.children v hv).imp_right (List.mem_map_of_mem ·)
    · exact .inl hv

theorem Lodges.grows_add (h : g.Lodges context) (hg : g.Stores) {c : Component} (hc : c.Stores)
    (hnone : c.children = []) : g.Grows context [] (g.add c) := by
  refine ⟨fun r held hheld => ?_, fun r hr => ?_, fun u v hv => ?_, fun r _ =>
    isLoggerOf_of_context? (h.context?_add c) r⟩
  · rw [get?_add] at hheld
    split at hheld
    · cases hheld
      exact hc
    · exact hg r held hheld
  · rwa [variety?_add c hr]
  · rw [childrenOf_add hnone] at hv
    exact .inl hv

/-- A context changes. Its loggers may become more, as long as the further ones are new. -/
theorem grows_put_context (hg : g.Stores) {place : Ref} {c c' : LoggerContext}
    (hc : g.context? place = some c) {old : Graph}
    (hold : ∀ r, old.variety? r ≠ none → (r ∈ c'.root :: c'.loggers.map Prod.snd ↔
      r ∈ c.root :: c.loggers.map Prod.snd))
    (h : old.Grows context [] g) : old.Grows context [] (g.put place (.context c')) := by
  have hget := get?_of_context? hc
  have hplace : (g.put place (.context c')).context? place = some c' :=
    context?_eq_some_iff.2 (get?_put_self hget _)
  have hkept : (Component.context c').variety = (Component.context c).variety := rfl
  refine ⟨stores_put hg trivial, fun r hr => ?_, fun u v hv => ?_, fun r hr => ?_⟩
  · rw [variety?_put hget hkept]
    exact h.used r hr
  · rw [childrenOf_put hget] at hv
    split at hv
    · cases hv
    · exact h.children u v hv
  · refine Iff.trans ?_ (h.loggers r hr)
    by_cases he : context = place
    · subst he
      unfold IsLoggerOf
      rw [hplace, hc]
      simp only [Option.some.injEq, exists_eq_left']
      exact hold r hr
    · refine isLoggerOf_of_context? ?_ r
      unfold context?
      rw [get?_put_of_ne he]

theorem Lodges.grows_addLogger (h : g.Lodges context) (hg : g.Stores) {place : Ref}
    {c : LoggerContext} (hc : g.context? place = some c) {name : String}
    (hnew : c.find? name = none) {l : Logger} (hl : l.appenders = []) :
    g.Grows context [] (g.addLogger place c name l).1 := by
  have hadded := h.grows_add hg (c := .logger l) trivial hl
  have hlater : (g.add (.logger l)).context? place = some c :=
    context?_eq_some_iff.2 (get?_add_of_some (get?_of_context? hc) _)
  have hfind : Entries.find? name c.loggers = none := by
    unfold LoggerContext.find? at hnew
    split at hnew
    · cases hnew
    · exact hnew
  refine grows_put_context hadded.stores hlater (fun r hr => ?_) hadded
  rw [Entries.insert_of_find?_eq_none _ hfind]
  have hne : r ≠ g.next := ne_next_of_variety? hr
  simp [hne]

theorem Adjusted.grows {r : Ref} (h : g.Adjusted r g') (hlodges : g.Lodges context)
    (hg : g.Stores) : g.Grows context [] g' := by
  have changed : ∀ {l l' : Logger}, g.logger? r = some l → l'.appenders = l.appenders →
      g.Grows context [] (g.put r (.logger l')) := by
    intro l l' hl happenders
    have hchanged : (Component.logger l).ChangedTo (.logger l') [] :=
      ⟨nofun, rfl, fun k hk => .inl (by rwa [Component.children, happenders] at hk)⟩
    have hstores : (Component.logger l').Stores := trivial
    exact hlodges.grows_put hg (get?_of_logger? hl) hstores hchanged
  cases h with
  | kept => exact .refl hg
  | level hl _ => exact changed hl rfl
  | additive hl => exact changed hl rfl

end Graph

/-! ### Changes of a session -/

theorem ClassRegistry.Stores.instance {reg : ClassRegistry} (h : reg.Stores) {className : String}
    {kind : ComponentKind} {c : Component} (hc : reg.instanceOfKind? className kind = .ok c) :
    c.Stores := by
  obtain ⟨entry, hentry, rfl⟩ := mem_of_instanceOfKind? hc
  exact h entry hentry

theorem ClassRegistry.stores_builtins : builtins.Stores := by
  have hplain : ∀ entry ∈ builtins.prototypes, entry.2.variety ≠ .custom := by decide +kernel
  exact fun entry hentry => Component.stores_of_plain (hplain entry hentry)

/-- Further classes may be registered that store. -/
theorem ClassRegistry.Stores.register {reg : ClassRegistry} (h : reg.Stores) {name : String}
    {c : Component} (hc : c.Stores) : (reg.register name c).Stores := by
  intro entry hentry
  rcases Entries.mem_insert hentry with rfl | hentry
  · exact hc
  · exact h entry hentry

namespace Session

open LogConfig.Graph

variable {context : Ref} {s s' : Session}

theorem HasLogger.grows {name : String} {graph : Graph} {r : Ref} (h : s.HasLogger name graph r)
    (hgrounded : s.Grounded context) (hg : s.graph.Stores) : s.graph.Grows context [] graph := by
  cases h with
  | known _ _ => exact .refl hg
  | plain hcontext hnew =>
    exact hgrounded.lodges.grows_addLogger hg (context?_eq_some hcontext).2 hnew rfl
  | @ofClass _ _ _ prototype hcontext hnew hprototype =>
    have hnone : prototype.appenders = [] := hgrounded.classes.children hprototype
    exact hgrounded.lodges.grows_addLogger hg (context?_eq_some hcontext).2 hnew hnone

/-- A change that neither sets properties nor attaches children. -/
theorem AltersIf.grows (halters : s.AltersIf False False s') (hgrounded : s.Grounded context)
    (hclasses : s.classes.Stores) (hg : s.graph.Stores) :
    s.graph.Grows context [] s'.graph ∧ s'.appenderBag = s.appenderBag := by
  have hlodges := hgrounded.lodges
  cases halters with
  | aside hsame hbag _ =>
    rw [hsame]
    exact ⟨.refl hg, hbag⟩
  | created hc =>
    exact ⟨hlodges.grows_add hg (hclasses.instance hc) (hgrounded.classes.children hc), rfl⟩
  | adjusted hadjusted => exact ⟨hadjusted.grows hlodges hg, rfl⟩
  | declared hlogger => exact ⟨hlogger.grows hgrounded hg, rfl⟩
  | revised hcontext hrevised =>
    refine ⟨grows_put_context hg (context?_eq_some hcontext).2 (fun r _ => ?_) (.refl hg), rfl⟩
    rw [hrevised.root, hrevised.loggers]
  | activated hc hactive =>
    obtain ⟨hstores, hchanged⟩ := Component.Stores.activate? (hg _ _ hc) hactive
    exact ⟨hlodges.grows_put hg hc hstores hchanged, rfl⟩
  | kept _ hsets => exact hsets.elim
  | set hsets => exact hsets.elim
  | attached hattaches => exact hattaches.elim

theorem BecomesIf.grows (hbecomes : s.BecomesIf False False s') (hgrounded : s.Grounded context)
    (hclasses : s.classes.Stores) (hg : s.graph.Stores) :
    s.graph.Grows context [] s'.graph ∧ s'.appenderBag = s.appenderBag ∧
      s'.classes = s.classes := by
  induction hbecomes with
  | refl => exact ⟨.refl hg, rfl, rfl⟩
  | @tail s₁ s₂ hfirst hlast ih =>
    obtain ⟨hgrows, hbag, hsame⟩ := ih
    have hgrounded₁ := (BecomesIf.grounded hfirst hgrounded).1
    obtain ⟨hlater, hbag'⟩ := hlast.grows hgrounded₁ (by rwa [hsame]) hgrows.stores
    exact ⟨hgrows.trans hlater, hbag'.trans hbag,
      (hlast.shifts hgrounded₁.classes).2.trans hsame⟩

end Session
end LogConfig
