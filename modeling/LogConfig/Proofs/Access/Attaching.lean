import LogConfig.Proofs.Invariants.Attachments

/-
  Attaching a child under a name. Four questions look the name up, each for itself: how a child
  would be held, of which kind it must be, and the two ways to put it there. They agree
  (`Graph.attach_classified`): one published descriptor decides all four, the last collection of
  that name or, where there is none, a slot (`Decides`). A child of another kind is refused for its
  type; any other child is put where the descriptor says, and a component of a built-in class then
  differs in that place alone (`Component.Fills`, `Component.Joins`).
-/

namespace LogConfig
namespace Descriptor

/-! ### The descriptor that decides -/

variable {ds : List Descriptor} {tag : String}

/-- None of the descriptors is a collection of this name. -/
def NoCollection (ds : List Descriptor) (tag : String) : Prop :=
  ∀ d ∈ ds, d.isCollection = true →
    PropertyName.capitalize d.name ≠ PropertyName.capitalize tag

/-- None of the descriptors is a basic property or a slot of exactly this name. -/
def NoSingle (ds : List Descriptor) (property : String) : Prop :=
  ∀ d ∈ ds, d.isCollection = false → d.name ≠ property

/-- The descriptor that decides about the children of a name: how they are held, under which name
this is published, and the kind they must have. A collection goes before a slot, and of two
descriptors of one name the later counts. -/
inductive Decides (ds : List Descriptor) (tag : String) :
    Aggregation → String → ComponentKind → Prop where
  | collection {before after : List Descriptor} {published : String} {kind : ComponentKind} :
    ds = before ++ ⟨published, .collection kind⟩ :: after →
    PropertyName.capitalize published = PropertyName.capitalize tag →
    NoCollection after tag → Decides ds tag .asCollection published kind
  | slot {before after : List Descriptor} {published : String} {kind : ComponentKind} :
    NoCollection ds tag → ds = before ++ ⟨published, .slot kind⟩ :: after →
    published = PropertyName.decapitalize tag → NoSingle after published →
    Decides ds tag .asProperty published kind

theorem findLast?_eq_some_iff {p : Descriptor → Bool} {d : Descriptor} :
    findLast? p ds = some d ↔
      p d = true ∧ ∃ before after, ds = before ++ d :: after ∧ ∀ x ∈ after, p x = false := by
  rw [findLast?, List.find?_eq_some_iff_append]
  apply and_congr_right
  intro _
  constructor
  · rintro ⟨after, before, hsplit, hafter⟩
    refine ⟨before.reverse, after.reverse, ?_, by simpa using hafter⟩
    rw [← List.reverse_reverse ds, hsplit]
    simp
  · rintro ⟨before, after, rfl, hafter⟩
    exact ⟨after.reverse, before.reverse, by simp, by simpa using hafter⟩

theorem findLast?_eq_none_iff {p : Descriptor → Bool} :
    findLast? p ds = none ↔ ∀ d ∈ ds, p d = false := by
  simp [findLast?]

theorem collection?_eq_none_iff : collection? ds tag = none ↔ NoCollection ds tag := by
  simp [collection?, findLast?_eq_none_iff, NoCollection]

theorem collection?_eq_some_iff {published : String} {kind : ComponentKind} :
    collection? ds tag = some ⟨published, .collection kind⟩ ↔
      PropertyName.capitalize published = PropertyName.capitalize tag ∧
        ∃ before after, ds = before ++ ⟨published, .collection kind⟩ :: after ∧
          NoCollection after tag := by
  simp [collection?, findLast?_eq_some_iff, NoCollection, isCollection]

theorem single?_eq_some_iff {property published : String} {kind : ComponentKind} :
    single? ds property = some ⟨published, .slot kind⟩ ↔
      published = property ∧ ∃ before after, ds = before ++ ⟨published, .slot kind⟩ :: after ∧
        NoSingle after property := by
  simp [single?, findLast?_eq_some_iff, NoSingle, isCollection]

/-- What is found as a collection is one. -/
theorem kind_of_collection? {d : Descriptor} (h : collection? ds tag = some d) :
    ∃ kind, d = ⟨d.name, .collection kind⟩ := by
  have hcollection := (findLast?_eq_some_iff.1 h).1
  cases d with
  | mk name kind =>
    cases kind with
    | collection kind => exact ⟨kind, rfl⟩
    | _ => cases hcollection

end Descriptor

namespace Component

open Descriptor

variable {c : Component} {tag published : String} {aggregation : Aggregation} {kind : ComponentKind}

/-- The deciding descriptor is the answer to every question about the name. -/
theorem classified_of_decides (h : Decides c.descriptors tag aggregation published kind) :
    c.aggregation tag = aggregation ∧ c.childKind? tag = some kind ∧
      c.wanted? aggregation tag = some (published, kind) := by
  cases h with
  | collection hsplit hname hafter =>
    have hfound := collection?_eq_some_iff.2 ⟨hname, _, _, hsplit, hafter⟩
    rw [Component.aggregation, childKind?, wanted?, hfound]
    exact ⟨rfl, rfl, rfl⟩
  | slot hnone hsplit hname hafter =>
    subst hname
    have hfound := single?_eq_some_iff.2 ⟨rfl, _, _, hsplit, hafter⟩
    rw [Component.aggregation, childKind?, wanted?, collection?_eq_none_iff.2 hnone, hfound]
    exact ⟨rfl, rfl, rfl⟩

/-- Some descriptor decides, or there is no place for a child of this name. -/
theorem decides_or_unclassified (c : Component) (tag : String) :
    (∃ aggregation published kind, Decides c.descriptors tag aggregation published kind) ∨
      c.aggregation tag = .notFound ∧ c.childKind? tag = none := by
  cases hcollection : collection? c.descriptors tag with
  | some d =>
    obtain ⟨kind, hd⟩ := kind_of_collection? hcollection
    rw [hd] at hcollection
    obtain ⟨hname, before, after, hsplit, hafter⟩ := collection?_eq_some_iff.1 hcollection
    exact .inl ⟨_, _, _, .collection hsplit hname hafter⟩
  | none =>
    cases hsingle : single? c.descriptors (PropertyName.decapitalize tag) with
    | none =>
      refine .inr ?_
      rw [Component.aggregation, childKind?, hcollection, hsingle]
      exact ⟨rfl, rfl⟩
    | some d =>
      cases d with
      | mk published kind =>
        cases kind with
        | slot kind =>
          obtain ⟨hname, before, after, hsplit, hafter⟩ := single?_eq_some_iff.1 hsingle
          subst hname
          exact .inl ⟨_, _, _, .slot (collection?_eq_none_iff.1 hcollection) hsplit rfl hafter⟩
        | _ =>
          refine .inr ?_
          rw [Component.aggregation, childKind?, hcollection, hsingle]
          exact ⟨rfl, rfl⟩

end Component

/-! ### Slots and collections -/

namespace AppenderCore

/-- What the slot of a name holds. -/
def slot? (a : AppenderCore) (name : String) : Option Ref :=
  if name = "encoder" then a.encoder else if name = "layout" then a.layout else none

/-- The appender with something else, or nothing, in the slot of a name. -/
def withSlot (a : AppenderCore) (name : String) (content : Option Ref) : AppenderCore :=
  if name = "encoder" then { a with encoder := content }
  else if name = "layout" then { a with layout := content }
  else a

/-- What the collection of a name holds. -/
def members (a : AppenderCore) (name : String) : List Ref :=
  if name = "filter" then a.filters else []

/-- The appender with other members in the collection of a name. -/
def withMembers (a : AppenderCore) (name : String) (content : List Ref) : AppenderCore :=
  if name = "filter" then { a with filters := content } else a

end AppenderCore

namespace Component

/-- What a slot of a component of a built-in class holds. -/
def slot? (c : Component) (name : String) : Option Ref :=
  match c with
  | console a => a.core.slot? name
  | file a => a.core.slot? name
  | _ => none

def withSlot (c : Component) (name : String) (content : Option Ref) : Component :=
  match c with
  | console a => console { a with core := a.core.withSlot name content }
  | file a => file { a with core := a.core.withSlot name content }
  | c => c

/-- What a collection of a component of a built-in class holds. -/
def members (c : Component) (name : String) : List Ref :=
  match c with
  | console a => a.core.members name
  | file a => a.core.members name
  | logger l => if name = "appender" then l.appenders else []
  | _ => []

def withMembers (c : Component) (name : String) (content : List Ref) : Component :=
  match c with
  | console a => console { a with core := a.core.withMembers name content }
  | file a => file { a with core := a.core.withMembers name content }
  | logger l => if name = "appender" then logger { l with appenders := content } else logger l
  | c => c

/-- The child is in the slot, and with what the slot held before the component is as it was. -/
structure Fills (c : Component) (slot : String) (child : Ref) (c' : Component) : Prop where
  held : c'.slot? slot = some child
  others : c'.withSlot slot (c.slot? slot) = c

/-- The child is the last member of the collection, or one of the appenders that a logger has
already, and with the members before the component is as it was. -/
structure Joins (c : Component) (collection : String) (child : Ref) (c' : Component) : Prop where
  held : c'.members collection =
    if c.variety = .logger ∧ child ∈ c.members collection then c.members collection
    else c.members collection ++ [child]
  others : c'.withMembers collection (c.members collection) = c

end Component

namespace AppenderCore

variable {owner published : String} {kind : ComponentKind}

theorem exists_setComponent (a : AppenderCore) (hplace : ⟨published, .slot kind⟩ ∈ places)
    (child : Ref) :
    ∃ a', a.setComponent owner published child = .ok a' ∧ a'.slot? published = some child ∧
      a'.withSlot published (a.slot? published) = a := by
  simp only [places, List.mem_cons, Descriptor.mk.injEq, PropertyKind.slot.injEq, reduceCtorEq,
    and_false, List.not_mem_nil, or_false] at hplace
  rcases hplace with ⟨rfl, -⟩ | ⟨rfl, -⟩
  · exact ⟨_, rfl, rfl, rfl⟩
  · exact ⟨_, rfl, rfl, rfl⟩

theorem exists_addComponent (a : AppenderCore) (hplace : ⟨published, .collection kind⟩ ∈ places)
    (child : Ref) :
    ∃ a', a.addComponent owner published child = .ok a' ∧
      a'.members published = a.members published ++ [child] ∧
      a'.withMembers published (a.members published) = a := by
  simp only [places, List.mem_cons, Descriptor.mk.injEq, PropertyKind.collection.injEq,
    reduceCtorEq, and_false, List.not_mem_nil, or_false, false_or] at hplace
  obtain ⟨rfl, -⟩ := hplace
  exact ⟨_, rfl, rfl, rfl⟩

end AppenderCore

namespace Component

open Descriptor

variable {c : Component} {tag published : String} {aggregation : Aggregation} {kind : ComponentKind}

theorem exists_setComponent (hc : c.variety ≠ .custom)
    (hpublished : ⟨published, .slot kind⟩ ∈ c.descriptors) (child : Ref) :
    ∃ c', c.setComponent published child = .ok c' ∧ c.Fills published child c' := by
  cases c with
  | custom c => exact absurd rfl hc
  | console a =>
    obtain ⟨core, hcore, hheld, hothers⟩ :=
      a.core.exists_setComponent (mem_places (.inl rfl) hpublished nofun) child
    refine ⟨console { a with core }, ?_, hheld, ?_⟩
    · rw [setComponent, hcore]
      rfl
    · simp only [withSlot, slot?, hothers]
  | file a =>
    obtain ⟨core, hcore, hheld, hothers⟩ :=
      a.core.exists_setComponent (mem_places (.inr rfl) hpublished nofun) child
    refine ⟨file { a with core }, ?_, hheld, ?_⟩
    · rw [setComponent, hcore]
      rfl
    · simp only [withSlot, slot?, hothers]
  | _ => simp [descriptors, PatternLayout.descriptors, PatternLayoutEncoder.descriptors,
      ThresholdFilter.descriptors, LevelFilter.descriptors, Logger.descriptors] at hpublished

theorem joins_attach (l : Logger) (child : Ref) :
    (logger l).Joins "appender" child (logger (l.attach child)) := by
  have hmembers : ∀ l : Logger, (logger l).members "appender" = l.appenders := fun _ => rfl
  constructor
  · rw [hmembers, hmembers, Logger.attach]
    simp only [variety, true_and]
    split <;> rfl
  · rw [hmembers, Logger.attach]
    split <;> rfl

theorem exists_addComponent (hc : c.variety ≠ .custom)
    (hpublished : ⟨published, .collection kind⟩ ∈ c.descriptors) (child : Ref) :
    ∃ c', c.addComponent published child = .ok c' ∧ c.Joins published child c' := by
  cases c with
  | custom c => exact absurd rfl hc
  | console a =>
    obtain ⟨core, hcore, hheld, hothers⟩ :=
      a.core.exists_addComponent (mem_places (.inl rfl) hpublished nofun) child
    refine ⟨console { a with core }, ?_, ?_, ?_⟩
    · rw [addComponent, hcore]
      rfl
    · rw [if_neg nofun]
      exact hheld
    · simp only [withMembers, members, hothers]
  | file a =>
    obtain ⟨core, hcore, hheld, hothers⟩ :=
      a.core.exists_addComponent (mem_places (.inr rfl) hpublished nofun) child
    refine ⟨file { a with core }, ?_, ?_, ?_⟩
    · rw [addComponent, hcore]
      rfl
    · rw [if_neg nofun]
      exact hheld
    · simp only [withMembers, members, hothers]
  | logger l =>
    obtain ⟨rfl, -⟩ : published = "appender" ∧ kind = .appender := by
      simpa [descriptors, Logger.descriptors] using hpublished
    exact ⟨logger (l.attach child), rfl, joins_attach l child⟩
  | _ => simp [descriptors, PatternLayout.descriptors, PatternLayoutEncoder.descriptors,
      ThresholdFilter.descriptors, LevelFilter.descriptors] at hpublished

/-- The component holds the child in the place that was decided on, and is otherwise as it was. -/
def TakesChild (c : Component) (aggregation : Aggregation) (published : String) (child : Ref)
    (c' : Component) : Prop :=
  match aggregation with
  | .asProperty => c.Fills published child c'
  | .asCollection => c.Joins published child c'
  | .notFound => False

/-- A component of a built-in class takes every child that it has a place for. -/
theorem exists_take (hc : c.variety ≠ .custom)
    (h : Decides c.descriptors tag aggregation published kind) (child : Ref) :
    ∃ c', c.take aggregation published child = .ok c' ∧
      c.TakesChild aggregation published child c' := by
  have published_of_split : ∀ {before after : List Descriptor} {d : Descriptor},
      c.descriptors = before ++ d :: after → d ∈ c.descriptors := by
    intro before after d hsplit
    simp [hsplit]
  cases h with
  | collection hsplit => exact exists_addComponent hc (published_of_split hsplit) child
  | slot _ hsplit => exact exists_setComponent hc (published_of_split hsplit) child

end Component

namespace Graph

variable {g : Graph}

/-- Classification and attachment agree, for any component whatever it publishes. There is a kind
for the children of a name exactly when they can be held, and then one descriptor decides how, by
which name and of which kind. A child of another kind than that is refused with a type mismatch,
and nothing changes; what any other child comes to is what the component's own operation makes of
it. In a component of a built-in class this succeeds, and changes nothing but the place of the
child. -/
theorem attach_classified {r : Ref} {c : Component} (hc : g.get? r = some c) (tag : String) :
    (c.childKind? tag ≠ none ↔ c.aggregation tag ≠ .notFound) ∧
    (c.aggregation tag ≠ .notFound ↔
      ∃ aggregation published kind,
        Descriptor.Decides c.descriptors tag aggregation published kind) ∧
    ∀ aggregation published kind,
      Descriptor.Decides c.descriptors tag aggregation published kind →
      c.aggregation tag = aggregation ∧ c.childKind? tag = some kind ∧
      ∀ child held, child ≠ r → g.get? child = some held →
        (held.isKind kind = false →
          g.attach r aggregation tag child =
            .error (.typeMismatch published kind.name held.className) ∧
          ∀ s : Session, s.graph = g →
            Phase.changeGraph (fun g => g.attach r aggregation tag child) s =
              .error (.failed (.property (.typeMismatch published kind.name held.className))) s) ∧
        (held.isKind kind = true →
          g.attach r aggregation tag child =
            (c.take aggregation published child).map (g.put r) ∧
          (c.variety ≠ .custom → ∃ c', g.attach r aggregation tag child = .ok (g.put r c') ∧
            (g.put r c').get? r = some c' ∧ c.TakesChild aggregation published child c')) := by
  have hnotFound : ∀ aggregation published kind,
      Descriptor.Decides c.descriptors tag aggregation published kind →
      aggregation ≠ .notFound := by
    intro aggregation published kind h
    cases h <;> nofun
  refine ⟨?_, ?_, ?_⟩
  · obtain ⟨aggregation, published, kind, h⟩ | ⟨haggregation, hkind⟩ :=
      c.decides_or_unclassified tag
    · obtain ⟨haggregation, hkind, -⟩ := Component.classified_of_decides h
      simp [haggregation, hkind, hnotFound _ _ _ h]
    · simp [haggregation, hkind]
  · constructor
    · intro hfound
      obtain h | ⟨haggregation, -⟩ := c.decides_or_unclassified tag
      · exact h
      · exact absurd haggregation hfound
    · rintro ⟨aggregation, published, kind, h⟩
      rw [(Component.classified_of_decides h).1]
      exact hnotFound _ _ _ h
  · intro aggregation published kind h
    obtain ⟨haggregation, hkind, hwanted⟩ := Component.classified_of_decides h
    refine ⟨haggregation, hkind, ?_⟩
    intro child held hne hheld
    constructor
    · intro hother
      have hrefused := attach_mismatch hc hwanted hheld hother hne
      refine ⟨hrefused, ?_⟩
      rintro s rfl
      exact Phase.changeGraph_error hrefused
    · intro hfits
      have hattach := attach_fitting hc hwanted hheld hfits hne
      refine ⟨hattach, ?_⟩
      intro hbuiltin
      obtain ⟨c', htake, hchild⟩ := Component.exists_take hbuiltin h child
      refine ⟨c', ?_, get?_put_self hc c', hchild⟩
      rw [hattach, htake]
      rfl

/-- A box publishes a slot and a collection of one name, and the collection counts: it wants no
layout. A logger that has an appender takes the same one again, and does not have it twice. -/
theorem attach_classified_box :
    let box := CustomClass.storing "Box" [] [⟨"part", .slot .layout⟩, ⟨"Part", .collection .filter⟩]
      fun _ _ => none
    let logger : Logger := { name := "a", appenders := [⟨3⟩] }
    let g := ((((({} : Graph).add (.custom { type := box })).add (.layout {})).add
      (.logger logger)).add (.console {}))
    g.attach ⟨0⟩ .asCollection "part" ⟨1⟩ =
        .error (.typeMismatch "Part" "Filter" "PatternLayout") ∧
      ∃ c', g.attach ⟨2⟩ .asCollection "Appender" ⟨3⟩ = .ok (g.put ⟨2⟩ c') ∧
        c'.members "appender" = [⟨3⟩] := by
  intro box logger g
  constructor
  · obtain ⟨-, -, hdecided⟩ :=
      attach_classified (g := g) (r := ⟨0⟩) (c := .custom { type := box }) rfl "part"
    have hsplit : box.descriptors =
        [⟨"part", .slot .layout⟩] ++ ⟨"Part", .collection .filter⟩ :: [] := rfl
    have hpart : Descriptor.Decides box.descriptors "part" .asCollection "Part" .filter :=
      .collection hsplit (by decide) nofun
    obtain ⟨-, -, hchild⟩ := hdecided _ _ _ hpart
    exact ((hchild ⟨1⟩ (.layout {}) (by decide) rfl).1 rfl).1
  · obtain ⟨-, -, hdecided⟩ :=
      attach_classified (g := g) (r := ⟨2⟩) (c := .logger logger) rfl "Appender"
    have hsplit : Logger.descriptors =
        [⟨"level", .basic .level⟩, ⟨"additivity", .basic .boolean⟩] ++
          ⟨"appender", .collection .appender⟩ :: [] := rfl
    have happender :
        Descriptor.Decides Logger.descriptors "Appender" .asCollection "appender" .appender :=
      .collection hsplit (by decide) nofun
    obtain ⟨-, -, hchild⟩ := hdecided _ _ _ happender
    obtain ⟨c', hattach, -, hjoins⟩ := ((hchild ⟨3⟩ (.console {}) (by decide) rfl).2 rfl).2 nofun
    refine ⟨c', hattach, ?_⟩
    rw [hjoins.held]
    decide

end Graph
end LogConfig
