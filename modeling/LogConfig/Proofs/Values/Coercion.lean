import LogConfig.Proofs.Access.Setting
import LogConfig.Proofs.Text.Trimming
import LogConfig.Proofs.Values.Numerals

/-
  Coercion of texts. `Value.coerce_exact`: an integer or a long is read from exactly the texts
  that denote one of its range, and what is read is the number denoted; the display text of a
  value reads back as the value, for an enumeration provided that its tokens can be told apart;
  and the display text of whatever was read reads as the same value, whatever the tokens are.
-/

namespace LogConfig
namespace Text

/-! ### Letter case and blanks -/

/-- No letter is blank, and only letters change in lower case. -/
theorem isBlank_toLower (c : Char) : isBlank c.toLower = isBlank c := by
  have letters : ∀ n, 0x41 ≤ n → n ≤ 0x7A → inRanges blankRanges n = false := by
    intro n hlow hhigh
    simp [inRanges, blankRanges]
    omega
  have hlower := toNat_toLower c
  rw [isBlank, isBlank]
  split at hlower
  · next h => rw [letters _ (by omega) (by omega), letters _ h.1 (by omega)]
  · rw [hlower]

theorem strip_map_toLower (cs : List Char) :
    strip isBlank (cs.map Char.toLower) = (strip isBlank cs).map Char.toLower := by
  have hp : isBlank ∘ Char.toLower = isBlank := funext isBlank_toLower
  simp only [strip, stripStart, stripEnd, List.dropWhile_map, hp, ← List.map_reverse]

theorem strip_sublist (p : Char → Bool) (cs : List Char) : (strip p cs).Sublist cs := by
  have hend : (strip p cs).Sublist (stripStart p cs) := by
    rw [strip, stripEnd, ← List.reverse_sublist, List.reverse_reverse]
    exact List.dropWhile_sublist p
  exact hend.trans (List.dropWhile_sublist p)

theorem eqIgnoringCase_iff {s t : String} :
    eqIgnoringCase s t = true ↔ s.toList.map Char.toLower = t.toList.map Char.toLower := by
  rw [eqIgnoringCase, beq_iff_eq]

/-- A text that differs from a trimmed one by letter case only is trimmed itself. -/
theorem trim_eq_of_eqIgnoringCase {s t : String} (h : eqIgnoringCase s (trim t) = true) :
    trim s = s := by
  have hlower := eqIgnoringCase_iff.1 h
  rw [trim, String.toList_ofList] at hlower
  have hsame : (strip isBlank s.toList).map Char.toLower = s.toList.map Char.toLower := by
    rw [← strip_map_toLower, hlower, strip_map_toLower, strip_strip]
  have hlength : (strip isBlank s.toList).length = s.toList.length := by
    simpa using congrArg List.length hsame
  rw [trim, (strip_sublist isBlank s.toList).eq_of_length hlength, String.ofList_toList]

end Text

namespace Value

/-! ### Numbers -/

/-- The text is an integer in decimal digits with a sign or none, and blanks around it. -/
def Denotes (text : String) (z : Int) : Prop :=
  ∃ core, Text.WritesInt core z ∧ Text.Pads core text.toList

theorem readInt_trim_eq_some_iff {text : String} {z : Int} :
    Text.readInt (Text.trim text).toList = some z ↔ Denotes text z := by
  rw [Text.readInt_eq_some_iff, Text.trim, String.toList_ofList]
  constructor
  · intro h
    exact ⟨_, h, Text.pads_strip _⟩
  · rintro ⟨core, hcore, hpads⟩
    rwa [hpads.strip_eq hcore.not_blank]

/-- A number between two bounds is read, as a number of a type that has all these. -/
theorem readInt_bind_eq_some_iff {N : Type} {toInt : N → Int} {ofInt : Int → N} {low high : Int}
    (hof : ∀ z, low ≤ z → z ≤ high → toInt (ofInt z) = z) (hto : ∀ n, ofInt (toInt n) = n)
    {make : N → Value} {text : String} {v : Value} :
    ((Text.readInt (Text.trim text).toList).bind fun z =>
        if low ≤ z ∧ z ≤ high then some (make (ofInt z)) else none) = some v ↔
      ∃ z, Denotes text z ∧ low ≤ z ∧ z ≤ high ∧ ∃ n, toInt n = z ∧ v = make n := by
  simp only [Option.bind_eq_some_iff, readInt_trim_eq_some_iff]
  apply exists_congr
  intro z
  constructor
  · rintro ⟨hz, hread⟩
    split at hread
    · next hrange =>
      exact ⟨hz, hrange.1, hrange.2, ofInt z, hof z hrange.1 hrange.2, (Option.some.inj hread).symm⟩
    · simp at hread
  · rintro ⟨hz, hlow, hhigh, n, rfl, rfl⟩
    rw [if_pos ⟨hlow, hhigh⟩, hto]
    exact ⟨hz, rfl⟩

theorem integer?_eq_some_iff {text : String} {v : Value} :
    integer? text = some v ↔
      ∃ z, Denotes text z ∧ -2 ^ 31 ≤ z ∧ z ≤ 2 ^ 31 - 1 ∧
        ∃ n : Int32, n.toInt = z ∧ v = integer n := by
  have hbind : integer? text = (Text.readInt (Text.trim text).toList).bind fun z =>
      if -2 ^ 31 ≤ z ∧ z ≤ 2 ^ 31 - 1 then some (integer (Int32.ofInt z)) else none := by
    unfold integer?
    cases Text.readInt (Text.trim text).toList <;> rfl
  have hof : ∀ z, -2 ^ 31 ≤ z → z ≤ 2 ^ 31 - 1 → (Int32.ofInt z).toInt = z := by
    intro z hlow hhigh
    exact Int32.toInt_ofInt_of_le hlow (by omega)
  rw [hbind]
  exact readInt_bind_eq_some_iff hof Int32.ofInt_toInt

theorem long?_eq_some_iff {text : String} {v : Value} :
    long? text = some v ↔
      ∃ z, Denotes text z ∧ -2 ^ 63 ≤ z ∧ z ≤ 2 ^ 63 - 1 ∧
        ∃ n : Int64, n.toInt = z ∧ v = long n := by
  have hbind : long? text = (Text.readInt (Text.trim text).toList).bind fun z =>
      if -2 ^ 63 ≤ z ∧ z ≤ 2 ^ 63 - 1 then some (long (Int64.ofInt z)) else none := by
    unfold long?
    cases Text.readInt (Text.trim text).toList <;> rfl
  have hof : ∀ z, -2 ^ 63 ≤ z → z ≤ 2 ^ 63 - 1 → (Int64.ofInt z).toInt = z := by
    intro z hlow hhigh
    exact Int64.toInt_ofInt_of_le hlow (by omega)
  rw [hbind]
  exact readInt_bind_eq_some_iff hof Int64.ofInt_toInt

theorem writes_digits (n : Nat) : Text.Writes 10 (Text.digits 10 n) n :=
  Text.readDigits_eq_some_iff.1 (Text.readDigits_digits (by decide) (by decide) n)

theorem denotes_intDecimal (z : Int) : Denotes (Text.intDecimal z) z := by
  have bare : ∀ core, Text.Pads core core := fun core => ⟨[], [], by simp⟩
  cases z with
  | ofNat n =>
    refine ⟨Text.digits 10 n, .unsigned (writes_digits n), ?_⟩
    rw [Text.intDecimal, Text.decimal, String.toList_ofList]
    exact bare _
  | negSucc n =>
    refine ⟨'-' :: Text.digits 10 (n + 1), .minus (writes_digits (n + 1)), ?_⟩
    have htext : (Text.intDecimal (.negSucc n)).toList = '-' :: Text.digits 10 (n + 1) := by
      simp [Text.intDecimal, Text.decimal, String.toList_append]
    rw [htext]
    exact bare _

/-! ### Tokens -/

theorem find?_eq_self {tokens : List String} {token : String} (h : token ∈ tokens)
    (hclear : tokens.Pairwise fun s t => Text.eqIgnoringCase s t = false) :
    tokens.find? (fun t => Text.eqIgnoringCase t token) = some token := by
  induction tokens with
  | nil => simp at h
  | cons first rest ih =>
    obtain ⟨hfirst, hrest⟩ := List.pairwise_cons.1 hclear
    rw [List.find?_cons]
    obtain rfl | hmem := List.mem_cons.1 h
    · simp [Text.eqIgnoringCase_iff.2 rfl]
    · rw [hfirst token hmem]
      exact ih hmem hrest

/-- A token is found from its own spelling as well as from the one that led to it. -/
theorem enumeration?_display {tokens : List String} {text : String} {v : Value}
    (h : enumeration? tokens text = some v) : enumeration? tokens v.display = some v := by
  obtain ⟨token, htoken, rfl⟩ := Option.map_eq_some_iff.1 h
  have hsame := List.find?_some htoken
  have htrim := Text.trim_eq_of_eqIgnoringCase hsame
  have hspelling : ∀ t, Text.eqIgnoringCase t (Text.trim token) =
      Text.eqIgnoringCase t (Text.trim text) := by
    intro t
    rw [htrim, Text.eqIgnoringCase, Text.eqIgnoringCase, Text.eqIgnoringCase_iff.1 hsame]
  rw [display, enumeration?, funext hspelling, htoken]
  rfl

theorem parse?_token (l : Level) : Level.parse? l.token = some l := by
  cases l <;> decide

end Value

/-- The tokens of an enumeration are trimmed, and no two are the same but for letter case. -/
def ValueType.Clear : ValueType → Prop
  | .enumeration tokens =>
    (∀ token ∈ tokens, Text.trim token = token) ∧
      tokens.Pairwise fun s t => Text.eqIgnoringCase s t = false
  | _ => True

namespace Value

/-! ### What a coercion yields -/

theorem coerce_eq_ok_iff {type : ValueType} {text : String} {v : Value} :
    coerce type text = .ok v ↔ ofText? type text = some v := by
  rw [coerce]
  split <;> simp_all

theorem hasType_long_iff {v : Value} : v.HasType .long ↔ ∃ n, v = long n := by
  cases v <;> simp [HasType]

/-- A value is read back from its display text. -/
theorem ofText?_display {type : ValueType} {v : Value} (h : v.HasType type) (hclear : type.Clear) :
    ofText? type v.display = some v := by
  cases type with
  | string =>
    obtain ⟨text, rfl⟩ := hasType_string_iff.1 h
    rfl
  | integer =>
    obtain ⟨n, rfl⟩ := hasType_integer_iff.1 h
    have hlow := n.le_toInt
    have hhigh := n.toInt_lt
    rw [ofText?, display, integer?_eq_some_iff]
    exact ⟨n.toInt, denotes_intDecimal n.toInt, hlow, by omega, n, rfl, rfl⟩
  | long =>
    obtain ⟨n, rfl⟩ := hasType_long_iff.1 h
    have hlow := n.le_toInt
    have hhigh := n.toInt_lt
    rw [ofText?, display, long?_eq_some_iff]
    exact ⟨n.toInt, denotes_intDecimal n.toInt, hlow, by omega, n, rfl, rfl⟩
  | boolean =>
    obtain ⟨b, rfl⟩ := hasType_boolean_iff.1 h
    cases b <;> decide
  | level =>
    obtain ⟨l, rfl⟩ := hasType_level_iff.1 h
    rw [ofText?, display, parse?_token, Option.map_some]
  | enumeration tokens =>
    obtain ⟨token, htoken, rfl⟩ := hasType_enumeration_iff.1 h
    rw [ofText?, display, enumeration?, hclear.1 token htoken, find?_eq_self htoken hclear.2]
    rfl

/-- What was read has a display text that reads as the same value, whatever the tokens are. -/
theorem ofText?_display_ofText? {type : ValueType} {text : String} {v : Value}
    (h : ofText? type text = some v) : ofText? type v.display = some v := by
  have htype := hasType_of_coerce (coerce_eq_ok_iff.2 h)
  cases type with
  | enumeration tokens => exact enumeration?_display h
  | _ => exact ofText?_display htype trivial

/-- A coercion to an integer succeeds exactly on the texts that denote a number in range, and
gives that number. A value is read back from its display text, and so is whatever was read. -/
theorem coerce_exact :
    (∀ text v, coerce .integer text = .ok v ↔
      ∃ z, Denotes text z ∧ -2 ^ 31 ≤ z ∧ z ≤ 2 ^ 31 - 1 ∧
        ∃ n : Int32, n.toInt = z ∧ v = integer n) ∧
    (∀ text v, coerce .long text = .ok v ↔
      ∃ z, Denotes text z ∧ -2 ^ 63 ≤ z ∧ z ≤ 2 ^ 63 - 1 ∧
        ∃ n : Int64, n.toInt = z ∧ v = long n) ∧
    (∀ type v, v.HasType type → type.Clear → coerce type v.display = .ok v) ∧
    (∀ type text v, coerce type text = .ok v → coerce type v.display = .ok v) := by
  simp only [coerce_eq_ok_iff]
  refine ⟨?_, ?_, fun _ _ => ofText?_display, fun _ _ _ => ofText?_display_ofText?⟩
  · intro text v
    rw [ofText?, integer?_eq_some_iff]
  · intro text v
    rw [ofText?, long?_eq_some_iff]

/-- The least integer is read, with zeros in front and blanks around it, and the number after the
greatest is not. A token is read back, also one that stands for another one in lower case. -/
theorem coerce_exact_limits :
    coerce .integer "\t-0002147483648 " = .ok (integer (-2147483648)) ∧
      (∀ v, coerce .integer "+2147483648" ≠ .ok v) ∧
      coerce (.enumeration ["fast", "slow"]) "slow" = .ok (enumeration "slow") ∧
      coerce (.enumeration ["Slow", "slow"]) "Slow" = .ok (enumeration "Slow") := by
  obtain ⟨hinteger, -, hclear, hread⟩ := coerce_exact
  refine ⟨?_, ?_, ?_, ?_⟩
  · have hdenotes : Denotes "\t-0002147483648 " (-2147483648) :=
      readInt_trim_eq_some_iff.1 (by decide)
    exact (hinteger _ _).2 ⟨_, hdenotes, by decide, by decide, -2147483648, by decide, rfl⟩
  · intro v h
    obtain ⟨z, hz, -, hhigh, -⟩ := (hinteger _ _).1 h
    have hnumber : some 2147483648 = some z :=
      Eq.trans (by decide) (readInt_trim_eq_some_iff.2 hz)
    cases hnumber
    exact absurd hhigh (by decide)
  · exact hclear (.enumeration ["fast", "slow"]) (enumeration "slow") (by simp [HasType])
      ⟨by decide, by decide⟩
  · exact hread (.enumeration ["Slow", "slow"]) " SLOW" (enumeration "Slow") (by decide)

end Value
end LogConfig
