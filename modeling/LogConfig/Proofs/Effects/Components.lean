import LogConfig.Proofs.Effects.Actions

/-
  What the operations on a component keep. A component stays of its variety and of the kinds that
  it can serve as, whatever is done to it. What a component of a built-in class holds
  (`Component.holdings`) changes only where a child is put into a slot or a collection, and then by
  that child, in a place where the kind is wanted that was checked (`Component.Gains`).
-/

namespace LogConfig

/-- What a component is, as far as its life goes. -/
inductive Variety where
  /-- It is to be activated once it is complete. -/
  | lifecycle
  | logger | context
  /-- Its class is none of the built-in ones. -/
  | custom
deriving DecidableEq, Repr

/-- What an appender holds, each child with the kind wanted in its place. -/
def AppenderCore.holdings (a : AppenderCore) : List (ComponentKind × Ref) :=
  a.encoder.toList.map (ComponentKind.encoder, ·) ++
    (a.layout.toList.map (ComponentKind.layout, ·) ++ a.filters.map (ComponentKind.filter, ·))

namespace Component

def variety : Component → Variety
  | logger _ => .logger
  | context _ => .context
  | custom _ => .custom
  | _ => .lifecycle

/-- Of the built-in classes, those with a lifecycle can be activated. -/
theorem isSome_activate?_iff {c : Component} (hc : c.variety ≠ .custom) :
    c.activate?.isSome ↔ c.variety = .lifecycle := by
  cases c with
  | custom c => exact absurd rfl hc
  | _ => simp [activate?, variety]

/-- No logger and no context is activated. -/
theorem variety_of_activate? {c : Component} (h : c.activate? ≠ none) :
    c.variety = .lifecycle ∨ c.variety = .custom := by
  cases c with
  | logger _ | context _ => exact absurd rfl h
  | custom _ => exact .inr rfl
  | _ => exact .inl rfl

/-- What a component of a built-in class holds, each child with the kind wanted in its place. -/
def holdings : Component → List (ComponentKind × Ref)
  | console a => a.core.holdings
  | file a => a.core.holdings
  | logger l => l.appenders.map (ComponentKind.appender, ·)
  | _ => []

theorem children_eq_holdings {c : Component} (hc : c.variety ≠ .custom) :
    c.children = c.holdings.map Prod.snd := by
  cases c with
  | custom c => exact absurd rfl hc
  | console a | file a =>
    simp [children, holdings, AppenderCore.holdings, Function.comp_def]
  | logger l => simp [children, holdings, Function.comp_def]
  | _ => rfl

/-- A component without children holds nothing. -/
theorem holdings_eq_nil {c : Component} (h : c.children = []) : c.holdings = [] := by
  by_cases hc : c.variety = .custom
  · cases c with
    | custom _ => rfl
    | _ => cases hc
  · rw [children_eq_holdings hc] at h
    exact List.map_eq_nil_iff.1 h

/-- The two components are of one variety and of the same kinds, and hold the same. -/
structure Alike (c c' : Component) : Prop where
  variety : c'.variety = c.variety
  kinds : c'.kinds = c.kinds
  holdings : c'.holdings = c.holdings

/-- The second component holds what the first one does, and maybe a child where a kind is
wanted. -/
structure Gains (c c' : Component) (kind : ComponentKind) (child : Ref) : Prop where
  variety : c'.variety = c.variety
  kinds : c'.kinds = c.kinds
  holdings : ∀ held ∈ c'.holdings, held ∈ c.holdings ∨ held = (kind, child)

theorem Alike.refl (c : Component) : c.Alike c := ⟨rfl, rfl, rfl⟩

theorem Alike.trans {c c' c'' : Component} (h : c.Alike c') (h' : c'.Alike c'') : c.Alike c'' :=
  ⟨h'.variety.trans h.variety, h'.kinds.trans h.kinds, h'.holdings.trans h.holdings⟩

end Component

/-! ### Settings -/

namespace AppenderCore

theorem holdings_setProperty? {a a' : AppenderCore} {name : String} {value : Value}
    (h : a.setProperty? name value = some (.ok a')) : a'.holdings = a.holdings := by
  unfold setProperty? at h
  dsimp only at h
  split at h
  · split at h
    · cases h
      rfl
    · cases h
  · split at h
    · split at h
      · cases h
        rfl
      · cases h
    · cases h

theorem holdings_activate {a a' : AppenderCore} (h : a.activate = .ok a') :
    a'.holdings = a.holdings := by
  unfold activate at h
  split at h
  · cases h
  · cases h
    rfl

end AppenderCore

namespace Component

theorem exists_of_map_eq_ok {ε α β : Type} {f : α → β} {x : Except ε α} {b : β}
    (h : x.map f = .ok b) : ∃ a, x = .ok a ∧ f a = b := by
  cases x with
  | error e => cases h
  | ok a =>
    cases h
    exact ⟨a, rfl, rfl⟩

theorem holdings_console_setProperty {a a' : ConsoleAppender} {name : String} {value : Value}
    (h : a.setProperty name value = .ok a') : a'.core.holdings = a.core.holdings := by
  unfold ConsoleAppender.setProperty at h
  split at h
  · next core hcore =>
    cases h
    exact AppenderCore.holdings_setProperty? hcore
  · cases h
  · split at h
    · split at h
      · cases h
        rfl
      · cases h
    · cases h

theorem core_file_setOwnProperty {a a' : FileAppender} {name : String} {value : Value}
    (h : a.setOwnProperty name value = .ok a') : a'.core = a.core := by
  unfold FileAppender.setOwnProperty at h
  dsimp only at h
  repeat' split at h
  all_goals cases h
  all_goals rfl

theorem holdings_file_setProperty {a a' : FileAppender} {name : String} {value : Value}
    (h : a.setProperty name value = .ok a') : a'.core.holdings = a.core.holdings := by
  unfold FileAppender.setProperty at h
  split at h
  · next core hcore =>
    cases h
    exact AppenderCore.holdings_setProperty? hcore
  · cases h
  · rw [core_file_setOwnProperty h]

theorem appenders_logger_setProperty {l l' : Logger} {name : String} {value : Value}
    (h : l.setProperty name value = .ok l') : l'.appenders = l.appenders := by
  unfold Logger.setProperty at h
  dsimp only at h
  repeat' split at h
  all_goals cases h
  all_goals rfl

theorem alike_of_setProperty {c c' : Component} {name : String} {value : Value}
    (h : c.setProperty name value = .ok c') : c.Alike c' := by
  cases c with
  | console a =>
    obtain ⟨a', ha, rfl⟩ := exists_of_map_eq_ok h
    exact ⟨rfl, rfl, holdings_console_setProperty ha⟩
  | file a =>
    obtain ⟨a', ha, rfl⟩ := exists_of_map_eq_ok h
    exact ⟨rfl, rfl, holdings_file_setProperty ha⟩
  | logger l =>
    obtain ⟨l', hl, rfl⟩ := exists_of_map_eq_ok h
    refine ⟨rfl, rfl, ?_⟩
    rw [holdings, appenders_logger_setProperty hl, holdings]
  | context c => cases h
  | layout _ | encoder _ | threshold _ | levelFilter _ | custom _ =>
    obtain ⟨_, -, rfl⟩ := exists_of_map_eq_ok h
    exact ⟨rfl, rfl, rfl⟩

theorem alike_of_setFromText {c c' : Component} {name text : String}
    (h : c.setFromText name text = .ok c') : c.Alike c' := by
  unfold setFromText at h
  dsimp only at h
  split at h
  · cases h
  · cases h
  · cases h
  · split at h
    · cases h
    · exact alike_of_setProperty h

theorem holdings_file_activate {a a' : FileAppender} (h : a.activate = .ok a') :
    a'.core.holdings = a.core.holdings := by
  unfold FileAppender.activate at h
  split at h
  · cases h
  · split at h
    · cases h
    · split at h
      · cases h
      · split at h
        · next core hcore =>
          cases h
          exact AppenderCore.holdings_activate hcore
        · cases h

theorem alike_of_activate? {c c' : Component} (h : c.activate? = some (.ok c')) : c.Alike c' := by
  cases c with
  | console a =>
    obtain ⟨a', ha, rfl⟩ := exists_of_map_eq_ok (Option.some.inj h)
    unfold ConsoleAppender.activate at ha
    split at ha
    · next core hcore =>
      cases ha
      exact ⟨rfl, rfl, AppenderCore.holdings_activate hcore⟩
    · cases ha
  | file a =>
    obtain ⟨a', ha, rfl⟩ := exists_of_map_eq_ok (Option.some.inj h)
    exact ⟨rfl, rfl, holdings_file_activate ha⟩
  | layout _ | encoder _ | threshold _ | levelFilter _ =>
    obtain ⟨_, -, rfl⟩ := exists_of_map_eq_ok (Option.some.inj h)
    exact ⟨rfl, rfl, rfl⟩
  | custom c =>
    obtain ⟨result, -, hresult⟩ := Option.map_eq_some_iff.1 h
    obtain ⟨_, -, rfl⟩ := exists_of_map_eq_ok hresult
    exact ⟨rfl, rfl, rfl⟩
  | _ => cases h

end Component

/-! ### Children -/

namespace Descriptor

/-- The kind of the children that a published property holds. -/
def childKind? (d : Descriptor) : Option ComponentKind :=
  match d.kind with
  | .basic _ => none
  | .slot kind => some kind
  | .collection kind => some kind

theorem mem_of_findLast? {p : Descriptor → Bool} {ds : List Descriptor} {d : Descriptor}
    (h : findLast? p ds = some d) : d ∈ ds ∧ p d = true :=
  ⟨List.mem_reverse.1 (List.mem_of_find?_eq_some h), List.find?_some h⟩

/-- A basic property or a slot is published under the name that it is found by. -/
theorem mem_of_single? {ds : List Descriptor} {property published : String}
    {kind : PropertyKind} (h : single? ds property = some ⟨published, kind⟩) :
    ⟨property, kind⟩ ∈ ds := by
  obtain ⟨hmem, hname⟩ := mem_of_findLast? h
  obtain rfl : published = property := eq_of_beq (Bool.and_eq_true_iff.1 hname).2
  exact hmem

end Descriptor

namespace AppenderCore

/-- What the places of an appender are published as. -/
def places : List Descriptor :=
  [⟨"encoder", .slot .encoder⟩, ⟨"layout", .slot .layout⟩, ⟨"filter", .collection .filter⟩]

/-- Filling a slot of an appender puts the child where the kind of the slot is wanted. -/
theorem holdings_setComponent {owner property : String} {a a' : AppenderCore} {child : Ref}
    {kind : ComponentKind} (h : a.setComponent owner property child = .ok a')
    (hd : ⟨property, .slot kind⟩ ∈ places) :
    ∀ held ∈ a'.holdings, held ∈ a.holdings ∨ held = (kind, child) := by
  intro held hheld
  unfold setComponent at h
  split at h
  · next hproperty =>
    cases h
    obtain rfl : kind = .encoder := by simpa [places, hproperty] using hd
    simp only [holdings, Option.toList_some, List.map_singleton, List.mem_append,
      List.mem_singleton] at hheld ⊢
    rcases hheld with hheld | hheld
    · exact .inr hheld
    · exact .inl (.inr hheld)
  · split at h
    · next hproperty =>
      cases h
      obtain rfl : kind = .layout := by simpa [places, hproperty] using hd
      simp only [holdings, Option.toList_some, List.map_singleton, List.mem_append,
        List.mem_singleton] at hheld ⊢
      rcases hheld with hheld | hheld | hheld
      · exact .inl (.inl hheld)
      · exact .inr hheld
      · exact .inl (.inr (.inr hheld))
    · cases h

/-- Adding to the filters of an appender puts the child where a filter is wanted. -/
theorem holdings_addComponent {owner property : String} {a a' : AppenderCore} {child : Ref}
    {kind : ComponentKind} (h : a.addComponent owner property child = .ok a')
    (hd : ⟨property, .collection kind⟩ ∈ places) :
    ∀ held ∈ a'.holdings, held ∈ a.holdings ∨ held = (kind, child) := by
  intro held hheld
  unfold addComponent at h
  split at h
  · next hproperty =>
    cases h
    obtain rfl : kind = .filter := by simpa [places, hproperty] using hd
    simp only [holdings, List.map_append, List.map_singleton, List.mem_append,
      List.mem_singleton] at hheld ⊢
    rcases hheld with hheld | hheld | hheld | hheld
    · exact .inl (.inl hheld)
    · exact .inl (.inr (.inl hheld))
    · exact .inl (.inr (.inr hheld))
    · exact .inr hheld
  · cases h

end AppenderCore

namespace Component

/-- A context publishes nothing. -/
theorem plain_of_mem {c : Component} {d : Descriptor} (hd : d ∈ c.descriptors) :
    c.variety ≠ .context := by
  cases c with
  | context c => cases hd
  | _ => nofun

/-- The places that appenders publish, among all that they publish. -/
theorem mem_places {ds : List Descriptor}
    (hds : ds = ConsoleAppender.descriptors ∨ ds = FileAppender.descriptors) {d : Descriptor}
    (hd : d ∈ ds) (hkind : d.childKind? ≠ none) : d ∈ AppenderCore.places := by
  have listed : ∀ ds ∈ [ConsoleAppender.descriptors, FileAppender.descriptors], ∀ d ∈ ds,
      d.childKind? ≠ none → d ∈ AppenderCore.places := by decide +kernel
  exact listed ds (by simpa using hds) d hd hkind

theorem gains_of_setComponent {c c' : Component} {property : String} {child : Ref}
    {kind : ComponentKind} (h : c.setComponent property child = .ok c')
    (hd : ⟨property, .slot kind⟩ ∈ c.descriptors) : c.Gains c' kind child := by
  cases c with
  | console a =>
    obtain ⟨core, hcore, rfl⟩ := exists_of_map_eq_ok h
    exact ⟨rfl, rfl, AppenderCore.holdings_setComponent hcore (mem_places (.inl rfl) hd nofun)⟩
  | file a =>
    obtain ⟨core, hcore, rfl⟩ := exists_of_map_eq_ok h
    exact ⟨rfl, rfl, AppenderCore.holdings_setComponent hcore (mem_places (.inr rfl) hd nofun)⟩
  | custom c =>
    obtain ⟨fields, -, rfl⟩ := exists_of_map_eq_ok h
    exact ⟨rfl, rfl, nofun⟩
  | _ => cases h

theorem gains_of_addComponent {c c' : Component} {property : String} {child : Ref}
    {kind : ComponentKind} (h : c.addComponent property child = .ok c')
    (hd : ⟨property, .collection kind⟩ ∈ c.descriptors) : c.Gains c' kind child := by
  cases c with
  | console a =>
    obtain ⟨core, hcore, rfl⟩ := exists_of_map_eq_ok h
    exact ⟨rfl, rfl, AppenderCore.holdings_addComponent hcore (mem_places (.inl rfl) hd nofun)⟩
  | file a =>
    obtain ⟨core, hcore, rfl⟩ := exists_of_map_eq_ok h
    exact ⟨rfl, rfl, AppenderCore.holdings_addComponent hcore (mem_places (.inr rfl) hd nofun)⟩
  | logger l =>
    obtain ⟨l', hl, rfl⟩ := exists_of_map_eq_ok h
    obtain ⟨-, rfl⟩ : property = "appender" ∧ kind = .appender := by
      simpa [descriptors, Logger.descriptors] using hd
    refine ⟨rfl, rfl, fun held hheld => ?_⟩
    unfold Logger.addComponent at hl
    split at hl
    · cases hl
      unfold holdings Logger.attach at hheld
      dsimp only at hheld
      split at hheld
      · exact .inl hheld
      · rw [List.map_append, List.map_singleton, List.mem_append, List.mem_singleton] at hheld
        exact hheld
    · cases hl
  | custom c =>
    obtain ⟨fields, -, rfl⟩ := exists_of_map_eq_ok h
    exact ⟨rfl, rfl, nofun⟩
  | _ => cases h

end Component

namespace Graph

/-- What attaching comes to: the parent gains a child, another component, of the kind wanted. -/
theorem Attached.gains {g g' : Graph} {r child : Ref} (h : g.Attached r child g') :
    ∃ c c' held kind, g.get? r = some c ∧ c.variety ≠ .context ∧ child ≠ r ∧
      g.get? child = some held ∧ held.isKind kind = true ∧ c.Gains c' kind child ∧
      g' = g.put r c' := by
  cases h with
  | slot hc hd hne hheld hkind hset =>
    have hmem := Descriptor.mem_of_single? hd
    exact ⟨_, _, _, _, hc, Component.plain_of_mem hmem, hne, hheld, hkind,
      Component.gains_of_setComponent hset hmem, rfl⟩
  | member hc hd hne hheld hkind hadd =>
    have hmem := (Descriptor.mem_of_findLast? hd).1
    exact ⟨_, _, _, _, hc, Component.plain_of_mem hmem, hne, hheld, hkind,
      Component.gains_of_addComponent hadd hmem, rfl⟩

end Graph
end LogConfig
