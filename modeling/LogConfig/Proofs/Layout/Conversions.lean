import LogConfig.Component.Layout

/-
  Patterns as they are written. A pattern is a sequence of items: literal text with its percent
  signs doubled, and conversions, which are a percent sign, modifiers and a word of letters. The
  scan of a pattern knows no items, and looks one character ahead. Still it finds the words of the
  conversions and nothing else (`conversionWords_pattern`), as long as no letter comes right after
  a conversion: the letter would belong to its word.
-/

namespace LogConfig

/-- A conversion of a pattern, such as `%-5level`. -/
structure Conversion where
  modifiers : List Char := []
  word : List Char
  modifiers_only : ∀ c ∈ modifiers, c = '-' ∨ c = '.' ∨ c.isDigit = true
  letters_only : ∀ c ∈ word, c.isAlpha = true
  word_ne_nil : word ≠ []

/-- An item of a pattern. -/
inductive PatternItem where
  /-- Text that stands for itself. -/
  | literal (text : List Char)
  | conversion (c : Conversion)

/-- Literal text as a pattern has it. -/
def doubled : List Char → List Char
  | [] => []
  | c :: text => if c = '%' then '%' :: '%' :: doubled text else c :: doubled text

namespace PatternItem

def written : PatternItem → List Char
  | literal text => doubled text
  | conversion c => '%' :: (c.modifiers ++ c.word)

def word? : PatternItem → Option (List Char)
  | literal _ => none
  | conversion c => some c.word

/-- The pattern of these items. -/
def pattern (items : List PatternItem) : List Char := items.flatMap written

/-- The words of the conversions among these items. -/
def words (items : List PatternItem) : List (List Char) := items.filterMap word?

/-- No conversion is directly followed by a letter. -/
def Separated : List PatternItem → Prop
  | [] => True
  | literal _ :: rest => Separated rest
  | conversion _ :: rest => (∀ c ∈ (pattern rest).head?, c.isAlpha = false) ∧ Separated rest

end PatternItem

/-! ### The scan of one item -/

theorem conversionWords_percent {cs : List Char} (h : cs.head? ≠ some '%') :
    conversionWords ('%' :: cs) =
      let start := cs.dropWhile isModifier
      let word := start.takeWhile Char.isAlpha
      let others := conversionWords (start.dropWhile Char.isAlpha)
      if word.isEmpty then others else word :: others := by
  rw [conversionWords.eq_3]
  rintro rest rfl
  exact h rfl

/-- Literal text holds no conversion. -/
theorem conversionWords_doubled (text rest : List Char) :
    conversionWords (doubled text ++ rest) = conversionWords rest := by
  induction text with
  | nil => rfl
  | cons c text ih =>
    unfold doubled
    split
    · rw [List.cons_append, List.cons_append, conversionWords, ih]
    · next hc =>
      rw [List.cons_append, conversionWords.eq_4 _ _ (fun _ h _ => hc h) hc, ih]

theorem isModifier_iff {c : Char} :
    isModifier c = true ↔ c = '-' ∨ c = '.' ∨ c.isDigit = true := by
  simp only [isModifier, Bool.or_eq_true, decide_eq_true_eq, or_assoc]

/-- What can stand before the word of a conversion is no letter and no percent sign. -/
theorem of_isModifier {c : Char} (h : isModifier c = true) : c.isAlpha = false ∧ c ≠ '%' := by
  rcases isModifier_iff.1 h with rfl | rfl | hdigit
  · decide
  · decide
  · refine ⟨?_, ?_⟩
    · have hletter : c.isAlpha = (decide (c.val ≥ 'A'.val ∧ c.val ≤ 'Z'.val) ||
          (decide (c.val ≥ 'a'.val) && decide (c.val ≤ 'z'.val))) := rfl
      have hbound : c.val ≤ '9'.val := of_decide_eq_true (Bool.and_eq_true_iff.1 hdigit).2
      rw [hletter]
      grind
    · rintro rfl
      cases hdigit

namespace Conversion

variable (c : Conversion)

theorem isModifier_of_mem : ∀ m ∈ c.modifiers, isModifier m = true :=
  fun m hm => isModifier_iff.2 (c.modifiers_only m hm)

theorem head?_ne_percent (rest : List Char) :
    (c.modifiers ++ (c.word ++ rest)).head? ≠ some '%' := by
  cases hm : c.modifiers with
  | nil =>
    obtain ⟨first, letters, hword⟩ := List.exists_cons_of_ne_nil c.word_ne_nil
    have hfirst := c.letters_only first (by rw [hword]; exact List.mem_cons_self)
    rw [hword]
    rintro ⟨⟩
    cases hfirst
  | cons m modifiers =>
    have hfirst := of_isModifier (c.isModifier_of_mem m (by rw [hm]; exact List.mem_cons_self))
    exact fun h => hfirst.2 (Option.some.inj h)

/-- The modifiers end where the word begins. -/
theorem dropWhile_modifiers (rest : List Char) :
    (c.modifiers ++ (c.word ++ rest)).dropWhile isModifier = c.word ++ rest := by
  obtain ⟨first, letters, hword⟩ := List.exists_cons_of_ne_nil c.word_ne_nil
  have hfirst := c.letters_only first (by rw [hword]; exact List.mem_cons_self)
  have hstop : ¬ isModifier first = true := fun h => by
    rw [(of_isModifier h).1] at hfirst
    cases hfirst
  rw [List.dropWhile_append_of_pos c.isModifier_of_mem, hword, List.cons_append,
    List.dropWhile_cons_of_neg hstop]

/-- A conversion that no letter follows contributes its word. -/
theorem conversionWords_written {rest : List Char} (h : ∀ d ∈ rest.head?, d.isAlpha = false) :
    conversionWords ((PatternItem.conversion c).written ++ rest) =
      c.word :: conversionWords rest := by
  have hwritten : (PatternItem.conversion c).written ++ rest =
      '%' :: (c.modifiers ++ (c.word ++ rest)) := by simp [PatternItem.written]
  have hstop : rest.takeWhile Char.isAlpha = [] ∧ rest.dropWhile Char.isAlpha = rest := by
    cases rest with
    | nil => exact ⟨rfl, rfl⟩
    | cons d rest => simp [h d rfl]
  have hword : (c.word ++ rest).takeWhile Char.isAlpha = c.word := by
    rw [List.takeWhile_append_of_pos c.letters_only, hstop.1, List.append_nil]
  have hrest : (c.word ++ rest).dropWhile Char.isAlpha = rest := by
    rw [List.dropWhile_append_of_pos c.letters_only, hstop.2]
  rw [hwritten, conversionWords_percent (c.head?_ne_percent rest)]
  simp only [c.dropWhile_modifiers, hword, hrest, List.isEmpty_iff, c.word_ne_nil, if_false]

end Conversion

/-! ### The scan of a pattern -/

open PatternItem (pattern words Separated)

/-- The conversion words of a pattern are the words of its conversions, in their order and as often
as they occur. -/
theorem conversionWords_pattern (items : List PatternItem) (h : Separated items) :
    conversionWords (pattern items) = words items := by
  induction items with
  | nil => rw [pattern, words, List.flatMap_nil, List.filterMap_nil, conversionWords]
  | cons item rest ih =>
    cases item with
    | literal text => exact (conversionWords_doubled text (pattern rest)).trans (ih h)
    | conversion c =>
      obtain ⟨hnext, hrest⟩ := h
      calc conversionWords (pattern (.conversion c :: rest))
          = c.word :: conversionWords (pattern rest) := c.conversionWords_written hnext
        _ = words (.conversion c :: rest) := congrArg (c.word :: ·) (ih hrest)

/-- Doubled percent signs on both sides of conversions, and two conversions side by side. -/
theorem conversionWords_pattern_percents :
    let level : Conversion := ⟨"-5".toList, "level".toList,
      fun m hm => isModifier_iff.1 (List.all_eq_true.1 rfl m hm), List.all_eq_true.1 rfl,
      List.cons_ne_nil _ _⟩
    let line : Conversion := ⟨[], ['n'], nofun, List.all_eq_true.1 rfl, List.cons_ne_nil _ _⟩
    let items : List PatternItem :=
      [.literal "100%".toList, .conversion level, .conversion line, .literal "%n [%".toList,
        .conversion level]
    Separated items ∧ pattern items = "100%%%-5level%n%%n [%%%-5level".toList ∧
      conversionWords (pattern items) = words items ∧
      words items = ["level".toList, ['n'], "level".toList] := by
  intro level line items
  have hitems : Separated items := by
    simp [items, Separated, pattern, PatternItem.written, doubled]
  exact ⟨hitems, by decide, conversionWords_pattern items hitems, by decide⟩

end LogConfig
