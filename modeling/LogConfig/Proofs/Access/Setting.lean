import LogConfig.Proofs.Invariants.Attachments

/-
  Setting a property from a text. A component of a built-in class takes exactly the texts that it
  says it takes: those that denote a value of the type under which it publishes the property. What
  it took can be read back, and nothing else about it changes (`Component.SetTo`); what it refuses
  it refuses for one of three reasons, and stays as it was (`Component.Refuses`).
-/

namespace LogConfig

/-! ### Values and their types -/

namespace Value

theorem hasType_of_integer? {text : String} {value : Value} (h : integer? text = some value) :
    value.HasType .integer := by
  unfold integer? at h
  split at h
  · split at h
    · cases h
      trivial
    · cases h
  · cases h

theorem hasType_of_long? {text : String} {value : Value} (h : long? text = some value) :
    value.HasType .long := by
  unfold long? at h
  split at h
  · split at h
    · cases h
      trivial
    · cases h
  · cases h

theorem hasType_of_boolean? {text : String} {value : Value} (h : boolean? text = some value) :
    value.HasType .boolean := by
  unfold boolean? at h
  split at h
  · cases h
    trivial
  · split at h
    · cases h
      trivial
    · cases h

/-- A coerced value has the type that was asked for. -/
theorem hasType_of_coerce {type : ValueType} {text : String} {value : Value}
    (h : coerce type text = .ok value) : value.HasType type := by
  have hvalue : ofText? type text = some value := by
    unfold coerce at h
    split at h
    · next found hfound =>
      cases h
      exact hfound
    · cases h
  cases type with
  | string =>
    cases hvalue
    trivial
  | integer =>
    rw [ofText?] at hvalue
    exact hasType_of_integer? hvalue
  | long =>
    rw [ofText?] at hvalue
    exact hasType_of_long? hvalue
  | boolean =>
    rw [ofText?] at hvalue
    exact hasType_of_boolean? hvalue
  | level =>
    rw [ofText?] at hvalue
    obtain ⟨l, -, rfl⟩ := Option.map_eq_some_iff.1 hvalue
    trivial
  | enumeration tokens =>
    rw [ofText?, enumeration?] at hvalue
    obtain ⟨token, htoken, rfl⟩ := Option.map_eq_some_iff.1 hvalue
    exact List.mem_of_find?_eq_some htoken

theorem hasType_string_iff {value : Value} :
    value.HasType .string ↔ ∃ text, value = string text := by
  cases value <;> simp [HasType]

theorem hasType_integer_iff {value : Value} : value.HasType .integer ↔ ∃ n, value = integer n := by
  cases value <;> simp [HasType]

theorem hasType_boolean_iff {value : Value} : value.HasType .boolean ↔ ∃ b, value = boolean b := by
  cases value <;> simp [HasType]

theorem hasType_level_iff {value : Value} : value.HasType .level ↔ ∃ l, value = level l := by
  cases value <;> simp [HasType]

theorem hasType_enumeration_iff {tokens : List String} {value : Value} :
    value.HasType (.enumeration tokens) ↔ ∃ token ∈ tokens, value = enumeration token := by
  cases value <;> simp [HasType]

/-- What a property keeps of a value: paths of files and names of character sets are trimmed. -/
def keptAs (property : String) : Value → Value
  | string text =>
    if property = "file" ∨ property = "charset" then string (Text.trim text) else string text
  | value => value

end Value

/-- The property of this name reads as this value afterwards, and every other as before. -/
structure SetsOnly {α : Type} (read : α → String → Option Value) (property : String) (value : Value)
    (a a' : α) : Prop where
  value : read a' property = some (value.keptAs property)
  others : ∀ other, other ≠ property → read a' other = read a other

/-- The operation succeeds. -/
def Takes {α : Type} (result : Except PropertyError α) : Prop := ∃ a, result = .ok a

theorem Takes.map {α β : Type} {result : Except PropertyError α} (h : Takes result) (f : α → β) :
    Takes (result.map f) := by
  obtain ⟨a, rfl⟩ := h
  exact ⟨f a, rfl⟩

/-! ### What each class takes -/

namespace AppenderCore

theorem setProperty?_eq_ok {a a' : AppenderCore} {property : String} {value : Value}
    (h : a.setProperty? property value = some (.ok a')) :
    (property = "name" ∧ ∃ text, value = .string text ∧ a' = { a with name := some text }) ∨
      property = "immediateFlush" ∧
        ∃ b, value = .boolean b ∧ a' = { a with immediateFlush := b } := by
  unfold setProperty? at h
  dsimp only at h
  split at h
  · next hp =>
    split at h
    · next text =>
      cases h
      exact .inl ⟨hp, text, rfl, rfl⟩
    · cases h
  · split at h
    · next hp =>
      split at h
      · next b =>
        cases h
        exact .inr ⟨hp, b, rfl, rfl⟩
      · cases h
    · cases h

end AppenderCore

theorem ConsoleAppender.setsOnly {a a' : ConsoleAppender} {property : String} {value : Value}
    (h : a.setProperty property value = .ok a') :
    SetsOnly ConsoleAppender.property? property value a a' ∧ a'.core.active = a.core.active := by
  unfold setProperty at h
  split at h
  · next core hcore =>
    cases h
    rcases AppenderCore.setProperty?_eq_ok hcore with ⟨rfl, text, rfl, rfl⟩ | ⟨rfl, b, rfl, rfl⟩
    · refine ⟨⟨rfl, fun other hne => ?_⟩, rfl⟩
      simp [property?, AppenderCore.property?, hne]
    · refine ⟨⟨rfl, fun other hne => ?_⟩, rfl⟩
      simp [property?, AppenderCore.property?, hne]
  · cases h
  · split at h
    · next hp =>
      subst hp
      split at h
      · next token =>
        cases h
        refine ⟨⟨rfl, fun other hne => ?_⟩, rfl⟩
        simp [property?, hne]
      · cases h
    · cases h

theorem ConsoleAppender.takes (a : ConsoleAppender) {property : String} {type : ValueType}
    (hpublished : ⟨property, .basic type⟩ ∈ descriptors) {value : Value}
    (hvalue : value.HasType type) : Takes (a.setProperty property value) := by
  simp only [descriptors, List.mem_cons, Descriptor.mk.injEq, PropertyKind.basic.injEq,
    List.not_mem_nil, or_false, reduceCtorEq, and_false] at hpublished
  rcases hpublished with ⟨rfl, rfl⟩ | ⟨rfl, rfl⟩ | ⟨rfl, rfl⟩
  · obtain ⟨text, rfl⟩ := Value.hasType_string_iff.1 hvalue
    exact ⟨_, rfl⟩
  · obtain ⟨token, -, rfl⟩ := Value.hasType_enumeration_iff.1 hvalue
    exact ⟨_, rfl⟩
  · obtain ⟨b, rfl⟩ := Value.hasType_boolean_iff.1 hvalue
    exact ⟨_, rfl⟩

theorem FileAppender.setsOnly {a a' : FileAppender} {property : String} {value : Value}
    (h : a.setProperty property value = .ok a') :
    SetsOnly FileAppender.property? property value a a' ∧ a'.core.active = a.core.active := by
  unfold setProperty at h
  split at h
  · next core hcore =>
    cases h
    rcases AppenderCore.setProperty?_eq_ok hcore with ⟨rfl, text, rfl, rfl⟩ | ⟨rfl, b, rfl, rfl⟩
    · refine ⟨⟨rfl, fun other hne => ?_⟩, rfl⟩
      simp [property?, AppenderCore.property?, hne]
    · refine ⟨⟨rfl, fun other hne => ?_⟩, rfl⟩
      simp [property?, AppenderCore.property?, hne]
  · cases h
  · unfold setOwnProperty at h
    dsimp only at h
    repeat' split at h
    all_goals cases h
    all_goals
      subst_vars
      refine ⟨⟨rfl, fun other hne => ?_⟩, rfl⟩
      simp [property?, hne]

theorem FileAppender.takes (a : FileAppender) {property : String} {type : ValueType}
    (hpublished : ⟨property, .basic type⟩ ∈ descriptors) {value : Value}
    (hvalue : value.HasType type) : Takes (a.setProperty property value) := by
  simp only [descriptors, List.mem_cons, Descriptor.mk.injEq, PropertyKind.basic.injEq,
    List.not_mem_nil, or_false, reduceCtorEq, and_false] at hpublished
  rcases hpublished with ⟨rfl, rfl⟩ | ⟨rfl, rfl⟩ | ⟨rfl, rfl⟩ | ⟨rfl, rfl⟩ | ⟨rfl, rfl⟩ |
    ⟨rfl, rfl⟩
  · obtain ⟨text, rfl⟩ := Value.hasType_string_iff.1 hvalue
    exact ⟨_, rfl⟩
  · obtain ⟨text, rfl⟩ := Value.hasType_string_iff.1 hvalue
    exact ⟨_, rfl⟩
  · obtain ⟨b, rfl⟩ := Value.hasType_boolean_iff.1 hvalue
    exact ⟨_, rfl⟩
  · obtain ⟨b, rfl⟩ := Value.hasType_boolean_iff.1 hvalue
    exact ⟨_, rfl⟩
  · obtain ⟨n, rfl⟩ := Value.hasType_integer_iff.1 hvalue
    exact ⟨_, rfl⟩
  · obtain ⟨b, rfl⟩ := Value.hasType_boolean_iff.1 hvalue
    exact ⟨_, rfl⟩

theorem PatternLayout.setsOnly {owner : String} {l l' : PatternLayout} {property : String}
    {value : Value} (h : l.setPropertyFor owner property value = .ok l') :
    SetsOnly PatternLayout.property? property value l l' ∧ l'.active = l.active := by
  unfold setPropertyFor at h
  dsimp only at h
  repeat' split at h
  all_goals cases h
  all_goals
    subst_vars
    refine ⟨⟨rfl, fun other hne => ?_⟩, rfl⟩
    simp [property?, hne]

theorem PatternLayout.takes (l : PatternLayout) {property : String} {type : ValueType}
    (hpublished : ⟨property, .basic type⟩ ∈ descriptors) {value : Value}
    (hvalue : value.HasType type) : Takes (l.setProperty property value) := by
  simp only [descriptors, List.mem_cons, Descriptor.mk.injEq, PropertyKind.basic.injEq,
    List.not_mem_nil, or_false] at hpublished
  rcases hpublished with ⟨rfl, rfl⟩ | ⟨rfl, rfl⟩
  · obtain ⟨text, rfl⟩ := Value.hasType_string_iff.1 hvalue
    exact ⟨_, rfl⟩
  · obtain ⟨b, rfl⟩ := Value.hasType_boolean_iff.1 hvalue
    exact ⟨_, rfl⟩

theorem PatternLayoutEncoder.setsOnly {e e' : PatternLayoutEncoder} {property : String}
    {value : Value} (h : e.setProperty property value = .ok e') :
    SetsOnly PatternLayoutEncoder.property? property value e e' ∧
      e'.layout.active = e.layout.active := by
  unfold setProperty at h
  split at h
  · next hp =>
    subst hp
    split at h
    · next text =>
      cases h
      refine ⟨⟨rfl, fun other hne => ?_⟩, rfl⟩
      simp [property?, hne]
    · cases h
  · next hp =>
    split at h
    · next layout hlayout =>
      cases h
      obtain ⟨⟨hvalue, hothers⟩, hactive⟩ := PatternLayout.setsOnly hlayout
      refine ⟨⟨by rw [property?, if_neg hp, hvalue], fun other hne => ?_⟩, hactive⟩
      simp only [property?, hothers other hne]
    · cases h

theorem PatternLayoutEncoder.takes (e : PatternLayoutEncoder) {property : String} {type : ValueType}
    (hpublished : ⟨property, .basic type⟩ ∈ descriptors) {value : Value}
    (hvalue : value.HasType type) : Takes (e.setProperty property value) := by
  simp only [descriptors, List.mem_cons, Descriptor.mk.injEq, PropertyKind.basic.injEq,
    List.not_mem_nil, or_false] at hpublished
  rcases hpublished with ⟨rfl, rfl⟩ | ⟨rfl, rfl⟩ | ⟨rfl, rfl⟩
  · obtain ⟨text, rfl⟩ := Value.hasType_string_iff.1 hvalue
    exact ⟨_, rfl⟩
  · obtain ⟨text, rfl⟩ := Value.hasType_string_iff.1 hvalue
    exact ⟨_, rfl⟩
  · obtain ⟨b, rfl⟩ := Value.hasType_boolean_iff.1 hvalue
    exact ⟨_, rfl⟩

theorem ThresholdFilter.setsOnly {f f' : ThresholdFilter} {property : String} {value : Value}
    (h : f.setProperty property value = .ok f') :
    SetsOnly ThresholdFilter.property? property value f f' ∧ f'.active = f.active := by
  unfold setProperty at h
  repeat' split at h
  all_goals cases h
  subst_vars
  refine ⟨⟨rfl, fun other hne => ?_⟩, rfl⟩
  simp [property?, hne]

theorem ThresholdFilter.takes (f : ThresholdFilter) {property : String} {type : ValueType}
    (hpublished : ⟨property, .basic type⟩ ∈ descriptors) {value : Value}
    (hvalue : value.HasType type) : Takes (f.setProperty property value) := by
  simp only [descriptors, List.mem_cons, Descriptor.mk.injEq, PropertyKind.basic.injEq,
    List.not_mem_nil, or_false] at hpublished
  obtain ⟨rfl, rfl⟩ := hpublished
  obtain ⟨level, rfl⟩ := Value.hasType_level_iff.1 hvalue
  exact ⟨_, rfl⟩

/-- A reply is shown by the token that it was given by. -/
theorem LevelFilter.token_of_reply? {value : Value} {reply : FilterReply}
    (h : reply? value = some reply) : value = .enumeration reply.token := by
  cases value with
  | enumeration token =>
    have htoken : reply.token = token := by simpa using List.find?_some h
    rw [htoken]
  | _ => cases h

theorem LevelFilter.setsOnly {f f' : LevelFilter} {property : String} {value : Value}
    (h : f.setProperty property value = .ok f') :
    SetsOnly LevelFilter.property? property value f f' ∧ f'.active = f.active := by
  unfold setProperty at h
  dsimp only at h
  split at h
  · next hp =>
    subst hp
    split at h
    · cases h
      refine ⟨⟨rfl, fun other hne => ?_⟩, rfl⟩
      simp [property?, hne]
    · cases h
  · split at h
    · next hp =>
      subst hp
      split at h
      · next reply hreply =>
        cases h
        obtain rfl := token_of_reply? hreply
        refine ⟨⟨rfl, fun other hne => ?_⟩, rfl⟩
        simp [property?, hne]
      · cases h
    · split at h
      · next hp =>
        subst hp
        split at h
        · next reply hreply =>
          cases h
          obtain rfl := token_of_reply? hreply
          refine ⟨⟨rfl, fun other hne => ?_⟩, rfl⟩
          simp [property?, hne]
        · cases h
      · cases h

theorem LevelFilter.takes (f : LevelFilter) {property : String} {type : ValueType}
    (hpublished : ⟨property, .basic type⟩ ∈ descriptors) {value : Value}
    (hvalue : value.HasType type) : Takes (f.setProperty property value) := by
  simp only [descriptors, List.mem_cons, Descriptor.mk.injEq, PropertyKind.basic.injEq,
    List.not_mem_nil, or_false] at hpublished
  rcases hpublished with ⟨rfl, rfl⟩ | ⟨rfl, rfl⟩ | ⟨rfl, rfl⟩
  · obtain ⟨level, rfl⟩ := Value.hasType_level_iff.1 hvalue
    exact ⟨_, rfl⟩
  · obtain ⟨token, htoken, rfl⟩ := Value.hasType_enumeration_iff.1 hvalue
    obtain ⟨reply, -, rfl⟩ := List.mem_map.1 htoken
    cases reply <;> exact ⟨_, rfl⟩
  · obtain ⟨token, htoken, rfl⟩ := Value.hasType_enumeration_iff.1 hvalue
    obtain ⟨reply, -, rfl⟩ := List.mem_map.1 htoken
    cases reply <;> exact ⟨_, rfl⟩

theorem Logger.setsOnly {l l' : Logger} {property : String} {value : Value}
    (h : l.setProperty property value = .ok l') :
    SetsOnly Logger.property? property value l l' := by
  unfold setProperty at h
  dsimp only at h
  repeat' split at h
  all_goals cases h
  all_goals
    subst_vars
    refine ⟨rfl, fun other hne => ?_⟩
    simp [property?, hne]

theorem Logger.takes (l : Logger) {property : String} {type : ValueType}
    (hpublished : ⟨property, .basic type⟩ ∈ descriptors) {value : Value}
    (hvalue : value.HasType type) : Takes (l.setProperty property value) := by
  simp only [descriptors, List.mem_cons, Descriptor.mk.injEq, PropertyKind.basic.injEq,
    List.not_mem_nil, or_false, reduceCtorEq, and_false] at hpublished
  rcases hpublished with ⟨rfl, rfl⟩ | ⟨rfl, rfl⟩
  · obtain ⟨level, rfl⟩ := Value.hasType_level_iff.1 hvalue
    exact ⟨_, rfl⟩
  · obtain ⟨b, rfl⟩ := Value.hasType_boolean_iff.1 hvalue
    exact ⟨_, rfl⟩

namespace Component

/-- A component takes a value for a property: the property reads as this value, every other as
before, and what the component is, what it holds and whether it is active do not change. -/
structure SetTo (c : Component) (property : String) (value : Value) (c' : Component) : Prop
    extends SetsOnly Component.property? property value c c' where
  className : c'.className = c.className
  holdings : c'.holdings = c.holdings
  active : c'.isActive? = c.isActive?

theorem setTo_of_setProperty {c c' : Component} (hc : c.variety ≠ .custom) {property : String}
    {value : Value} (h : c.setProperty property value = .ok c') : c.SetTo property value c' := by
  have hholdings := (alike_of_setProperty h).holdings
  cases c with
  | custom c => exact absurd rfl hc
  | context c => cases h
  | logger l =>
    obtain ⟨l', hl, rfl⟩ := exists_of_map_eq_ok h
    obtain ⟨hvalue, hothers⟩ := Logger.setsOnly hl
    exact ⟨⟨hvalue, hothers⟩, rfl, hholdings, rfl⟩
  | console a =>
    obtain ⟨a', ha, rfl⟩ := exists_of_map_eq_ok h
    obtain ⟨⟨hvalue, hothers⟩, hactive⟩ := ConsoleAppender.setsOnly ha
    exact ⟨⟨hvalue, hothers⟩, rfl, hholdings, congrArg some hactive⟩
  | file a =>
    obtain ⟨a', ha, rfl⟩ := exists_of_map_eq_ok h
    obtain ⟨⟨hvalue, hothers⟩, hactive⟩ := FileAppender.setsOnly ha
    exact ⟨⟨hvalue, hothers⟩, rfl, hholdings, congrArg some hactive⟩
  | layout l =>
    obtain ⟨l', hl, rfl⟩ := exists_of_map_eq_ok h
    obtain ⟨⟨hvalue, hothers⟩, hactive⟩ := PatternLayout.setsOnly hl
    exact ⟨⟨hvalue, hothers⟩, rfl, hholdings, congrArg some hactive⟩
  | encoder e =>
    obtain ⟨e', he, rfl⟩ := exists_of_map_eq_ok h
    obtain ⟨⟨hvalue, hothers⟩, hactive⟩ := PatternLayoutEncoder.setsOnly he
    exact ⟨⟨hvalue, hothers⟩, rfl, hholdings, congrArg some hactive⟩
  | threshold f =>
    obtain ⟨f', hf, rfl⟩ := exists_of_map_eq_ok h
    obtain ⟨⟨hvalue, hothers⟩, hactive⟩ := ThresholdFilter.setsOnly hf
    exact ⟨⟨hvalue, hothers⟩, rfl, hholdings, congrArg some hactive⟩
  | levelFilter f =>
    obtain ⟨f', hf, rfl⟩ := exists_of_map_eq_ok h
    obtain ⟨⟨hvalue, hothers⟩, hactive⟩ := LevelFilter.setsOnly hf
    exact ⟨⟨hvalue, hothers⟩, rfl, hholdings, congrArg some hactive⟩

/-- A value of the type under which a property is published is taken. -/
theorem setProperty_of_hasType {c : Component} (hc : c.variety ≠ .custom) {property : String}
    {type : ValueType} (hpublished : ⟨property, .basic type⟩ ∈ c.descriptors) {value : Value}
    (hvalue : value.HasType type) : ∃ c', c.setProperty property value = .ok c' := by
  cases c with
  | custom c => exact absurd rfl hc
  | context c => cases hpublished
  | console a => exact (a.takes hpublished hvalue).map console
  | file a => exact (a.takes hpublished hvalue).map file
  | layout l => exact (l.takes hpublished hvalue).map layout
  | encoder e => exact (e.takes hpublished hvalue).map encoder
  | threshold f => exact (f.takes hpublished hvalue).map threshold
  | levelFilter f => exact (f.takes hpublished hvalue).map levelFilter
  | logger l => exact (l.takes hpublished hvalue).map logger

/-- Each basic property and each slot is published once. -/
theorem single?_of_mem {c : Component} (hc : c.variety ≠ .custom) {d : Descriptor}
    (hd : d ∈ c.descriptors) (hsingle : d.isCollection = false) :
    Descriptor.single? c.descriptors d.name = some d := by
  have published : ∀ ds ∈ [ConsoleAppender.descriptors, FileAppender.descriptors,
      PatternLayout.descriptors, PatternLayoutEncoder.descriptors, ThresholdFilter.descriptors,
      LevelFilter.descriptors, Logger.descriptors, []], ∀ d ∈ ds, d.isCollection = false →
        Descriptor.single? ds d.name = some d := by decide
  cases c with
  | custom c => exact absurd rfl hc
  | _ => exact published _ (by simp [descriptors]) d hd hsingle

/-- Why a component does not take a text: it has no such property or slot, or a slot, or a property
whose type the text denotes no value of. -/
inductive Refuses (c : Component) (property text : String) : PropertyError → Prop where
  | unpublished : (∀ d ∈ c.descriptors, d.name = property → d.isCollection = true) →
    Refuses c property text (.notFound property c.className)
  | slot {kind : ComponentKind} : ⟨property, .slot kind⟩ ∈ c.descriptors →
    Refuses c property text (.unsupportedType property kind.name)
  | text {type : ValueType} : ⟨property, .basic type⟩ ∈ c.descriptors →
    (∀ value, Value.coerce type text ≠ .ok value) →
    Refuses c property text (.conversion property text type.name)

variable {c : Component} {name text : String}

theorem setFromText_published (hc : c.variety ≠ .custom) {type : ValueType}
    (hpublished : ⟨PropertyName.decapitalize name, .basic type⟩ ∈ c.descriptors) {value : Value}
    (hvalue : Value.coerce type text = .ok value) :
    ∃ c', c.setFromText name text = .ok c' ∧
      c.SetTo (PropertyName.decapitalize name) value c' := by
  obtain ⟨c', hset⟩ := setProperty_of_hasType hc hpublished (Value.hasType_of_coerce hvalue)
  refine ⟨c', ?_, setTo_of_setProperty hc hset⟩
  have hsingle := single?_of_mem hc hpublished rfl
  dsimp only at hsingle
  unfold setFromText
  dsimp only
  rw [hsingle]
  dsimp only
  rw [hvalue]
  exact hset

theorem published_of_setFromText {c' : Component} (h : c.setFromText name text = .ok c') :
    ∃ type value, ⟨PropertyName.decapitalize name, .basic type⟩ ∈ c.descriptors ∧
      Value.coerce type text = .ok value := by
  unfold setFromText at h
  dsimp only at h
  split at h
  · cases h
  · cases h
  · cases h
  · next type hsingle =>
    split at h
    · cases h
    · next value hvalue => exact ⟨type, value, Descriptor.mem_of_single? hsingle, hvalue⟩

theorem refuses_of_setFromText (hc : c.variety ≠ .custom) {e : PropertyError}
    (h : c.setFromText name text = .error e) :
    c.Refuses (PropertyName.decapitalize name) text e := by
  unfold setFromText at h
  dsimp only at h
  split at h
  · next hnone =>
    cases h
    refine .unpublished fun d hd hname => ?_
    cases hcollection : d.isCollection with
    | true => rfl
    | false =>
      rw [← hname, single?_of_mem hc hd hcollection] at hnone
      cases hnone
  · next published kind hsingle =>
    cases h
    exact .slot (Descriptor.mem_of_single? hsingle)
  · next published kind hsingle =>
    obtain ⟨-, hcollection⟩ := Descriptor.mem_of_findLast? hsingle
    cases hcollection
  · next published type hsingle =>
    have hmem := Descriptor.mem_of_single? hsingle
    split at h
    · next hfailed =>
      cases h
      exact .text hmem fun value hvalue => by rw [hfailed] at hvalue; cases hvalue
    · next value hvalue =>
      obtain ⟨c', hset⟩ := setProperty_of_hasType hc hmem (Value.hasType_of_coerce hvalue)
      rw [hset] at h
      cases h

end Component

namespace Graph

/-- Setting a property from a text is exact. Take a component of a built-in class, whatever its
state, the name of a property as a document may write it, and a text. The component takes the text
exactly if it publishes the property under a type of which the text denotes a value. Then the
property reads as this value, trimmed where it is a file or a character set, and every other
property, what the component holds and whether it is active are as before; no other component
changes. If not, the error tells which of three reasons there is, and the graph, and with it the
component, stays as it was. -/
theorem setFromText_exact {g : Graph} {r : Ref} {c : Component} (hc : g.get? r = some c)
    (hbuiltin : c.variety ≠ .custom) (name text : String) :
    let property := PropertyName.decapitalize name
    ((∃ g', g.setFromText r name text = .ok g') ↔
      ∃ type value, ⟨property, .basic type⟩ ∈ c.descriptors ∧
        Value.coerce type text = .ok value) ∧
    (∀ type value, ⟨property, .basic type⟩ ∈ c.descriptors → Value.coerce type text = .ok value →
      ∃ c', g.setFromText r name text = .ok (g.put r c') ∧ (g.put r c').get? r = some c' ∧
        c.SetTo property value c' ∧ c'.valueOf? name = some (value.keptAs property)) ∧
    ∀ e, g.setFromText r name text = .error e → c.Refuses property text e ∧
      ∀ s : Session, s.graph = g →
        Phase.changeGraph (fun g => g.setFromText r name text) s =
          .error (.failed (.property e)) s := by
  intro property
  have hupdate : g.setFromText r name text = (c.setFromText name text).map (g.put r) := by
    rw [Graph.setFromText, update, hc]
  have taken : ∀ type value, ⟨property, .basic type⟩ ∈ c.descriptors →
      Value.coerce type text = .ok value →
      ∃ c', g.setFromText r name text = .ok (g.put r c') ∧ c.SetTo property value c' := by
    intro type value hpublished hvalue
    obtain ⟨c', hset, hsetTo⟩ := Component.setFromText_published hbuiltin hpublished hvalue
    exact ⟨c', by rw [hupdate, hset]; rfl, hsetTo⟩
  refine ⟨⟨?_, ?_⟩, fun type value hpublished hvalue => ?_, fun e he => ⟨?_, fun s hs => ?_⟩⟩
  · rintro ⟨g', hg'⟩
    rw [hupdate] at hg'
    obtain ⟨c', hset, -⟩ := Component.exists_of_map_eq_ok hg'
    exact Component.published_of_setFromText hset
  · rintro ⟨type, value, hpublished, hvalue⟩
    obtain ⟨c', hset, -⟩ := taken type value hpublished hvalue
    exact ⟨_, hset⟩
  · obtain ⟨c', hset, hsetTo⟩ := taken type value hpublished hvalue
    exact ⟨c', hset, get?_put_self hc c', hsetTo, hsetTo.value⟩
  · rw [hupdate] at he
    cases hset : c.setFromText name text with
    | ok c' =>
      rw [hset] at he
      cases he
    | error problem =>
      rw [hset] at he
      cases he
      exact Component.refuses_of_setFromText hbuiltin hset
  · subst hs
    exact Phase.changeGraph_error he

/-- A file appender takes a path with blanks around it, under a name in capitals, and keeps it
without them. -/
theorem setFromText_exact_file :
    let g := ({} : Graph).add (.file {})
    ∃ c', g.setFromText ⟨0⟩ "File" " a.log " = .ok (g.put ⟨0⟩ c') ∧
      c'.valueOf? "File" = some (.string "a.log") ∧
      c'.valueOf? "append" = some (.boolean true) := by
  intro g
  have hname : PropertyName.decapitalize "File" = "file" := by decide
  have hother : PropertyName.decapitalize "append" = "append" := by decide
  have hpath : Text.trim " a.log " = "a.log" := by decide
  obtain ⟨-, htaken, -⟩ := setFromText_exact (g := g) (r := ⟨0⟩) (c := .file {}) rfl (by decide)
    "File" " a.log "
  obtain ⟨c', hset, -, hsetTo, hvalue⟩ := htaken .string (.string " a.log ") (by decide) rfl
  rw [hname] at hvalue hsetTo
  refine ⟨c', hset, ?_, ?_⟩
  · rw [hvalue, Value.keptAs, if_pos (.inl rfl), hpath]
  · rw [Component.valueOf?, hother]
    exact hsetTo.others "append" (by decide)

end Graph
end LogConfig
