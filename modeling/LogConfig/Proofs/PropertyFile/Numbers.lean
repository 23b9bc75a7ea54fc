import LogConfig.Proofs.PropertyFile.Escaping
import LogConfig.Proofs.Values.Numerals
import Mathlib.Data.List.Forall2

/-
  Characters written as numbers. After a backslash and `u` that belong to no other escape, up to
  four characters are taken (`unescape_number`): four hexadecimal digits that name a character
  give that character, and what names none is kept as it stands. Two further spellings give a
  character as well: fewer than four digits at the end of the text, and digits after a plus sign
  (`Abbreviates`). What stands before and after is read on its own (`unescape_append`).
  `parse_numbers` says this of every entry of a file; `parse_abbreviated` has two files with an
  abbreviated number.
-/

namespace LogConfig.PropertyFile

/-! ### Where an escape begins -/

/-- The text does not end within an escape: a backslash takes the character after it, and with a
`u` four more, whatever they are. What follows begins a new escape if it begins with a backslash. -/
inductive Whole : List Char → Prop where
  | nil : Whole []
  | plain {c : Char} {rest : List Char} : c ≠ '\\' → Whole rest → Whole (c :: rest)
  | escaped {c : Char} {rest : List Char} : c ≠ 'u' → Whole rest → Whole ('\\' :: c :: rest)
  | numbered {taken rest : List Char} :
      taken.length = 4 → Whole rest → Whole ('\\' :: 'u' :: taken ++ rest)

/-- An escape of which something is missing: the character after the backslash, or one of the
four characters of a number. -/
def Open (cs : List Char) : Prop :=
  cs = ['\\'] ∨ ∃ taken, cs = '\\' :: 'u' :: taken ∧ taken.length < 4

/-- Whole escapes in front leave the end of a text as it is. -/
theorem exists_open_append {first rest : List Char}
    (hfirst : ∀ more, Whole more → Whole (first ++ more))
    (hrest : ∃ before last, rest = before ++ last ∧ Whole before ∧ (last = [] ∨ Open last)) :
    ∃ before last, first ++ rest = before ++ last ∧ Whole before ∧ (last = [] ∨ Open last) := by
  obtain ⟨before, last, rfl, hbefore, hlast⟩ := hrest
  exact ⟨first ++ before, last, (List.append_assoc ..).symm, hfirst before hbefore, hlast⟩

/-- A text that is not whole is so but for one open escape at its end. -/
theorem exists_open (cs : List Char) :
    ∃ before last, cs = before ++ last ∧ Whole before ∧ (last = [] ∨ Open last) := by
  induction hn : cs.length using Nat.strongRecOn generalizing cs with
  | ind n ih =>
    subst hn
    cases cs with
    | nil => exact ⟨[], [], rfl, .nil, .inl rfl⟩
    | cons c cs =>
      by_cases hc : c = '\\'
      · subst hc
        cases cs with
        | nil => exact ⟨[], ['\\'], rfl, .nil, .inr (.inl rfl)⟩
        | cons d cs =>
          by_cases hd : d = 'u'
          · subst hd
            by_cases hlen : cs.length < 4
            · exact ⟨[], _, rfl, .nil, .inr (.inr ⟨cs, rfl, hlen⟩)⟩
            · have htake : (cs.take 4).length = 4 := by
                rw [List.length_take]
                omega
              have hcs : '\\' :: 'u' :: cs = ('\\' :: 'u' :: cs.take 4) ++ cs.drop 4 := by simp
              have hlt : (cs.drop 4).length < ('\\' :: 'u' :: cs).length := by
                simp only [List.length_drop, List.length_cons]
                omega
              rw [hcs]
              exact exists_open_append (fun _ => .numbered htake) (ih _ hlt _ rfl)
          · have hlt : cs.length < ('\\' :: d :: cs).length := by
              simp only [List.length_cons]
              omega
            have hrest := ih _ hlt _ rfl
            rw [show '\\' :: d :: cs = ['\\', d] ++ cs from rfl]
            exact exists_open_append (fun _ => .escaped hd) hrest
      · have hlt : cs.length < (c :: cs).length := by simp
        rw [show c :: cs = [c] ++ cs from rfl]
        exact exists_open_append (fun _ => .plain hc) (ih _ hlt _ rfl)

/-! ### What a number gives -/

/-- What a backslash and `u` with the characters taken after them give. -/
def numbered (taken : List Char) : List Char :=
  match charOfHex? taken with
  | some c => [c]
  | none => '\\' :: 'u' :: taken

theorem unescape_u (rest : List Char) :
    unescape ('\\' :: 'u' :: rest) = numbered (rest.take 4) ++ unescape (rest.drop 4) := by
  rw [unescape, numbered]
  cases charOfHex? (rest.take 4) <;> rfl

/-- A text that does not end within an escape is read on its own. -/
theorem unescape_append {before : List Char} (h : Whole before) (rest : List Char) :
    unescape (before ++ rest) = unescape before ++ unescape rest := by
  induction h with
  | nil => simp [unescape]
  | plain hc _ ih =>
    rw [List.cons_append, unescape_plain _ hc, unescape_plain _ hc, ih]
    rfl
  | @escaped c more hc _ ih =>
    have hone : ∃ d, ∀ cs, unescape ('\\' :: c :: cs) = d :: unescape cs := by
      by_cases hletter : c ∈ ['t', 'n', 'r', 'f', 'u']
      · simp only [List.mem_cons, List.not_mem_nil, or_false, hc] at hletter
        rcases hletter with rfl | rfl | rfl | rfl <;> exact ⟨_, fun cs => by rw [unescape]⟩
      · exact ⟨c, fun cs => unescape_escaped cs hletter⟩
    obtain ⟨d, hd⟩ := hone
    rw [List.cons_append, List.cons_append, hd, hd, ih]
    rfl
  | @numbered taken more htaken _ ih =>
    simp only [List.cons_append, List.append_assoc, unescape_u, List.take_left' htaken,
      List.drop_left' htaken, ih]

theorem charOfNat?_eq_some_iff {n : Nat} {c : Char} : charOfNat? n = some c ↔ n = c.toNat := by
  unfold charOfNat?
  split
  · next hn =>
    rw [Option.some.injEq]
    constructor
    · rintro rfl
      rw [Char.ofNat, dif_pos hn]
      rfl
    · rintro rfl
      exact Char.ofNat_toNat c
  · next hn =>
    simp only [reduceCtorEq, false_iff]
    rintro rfl
    exact hn c.valid

theorem charOfHex?_eq_some_iff {taken : List Char} {c : Char} :
    charOfHex? taken = some c ↔
      Text.Writes 16 taken c.toNat ∨ ∃ ds, taken = '+' :: ds ∧ Text.Writes 16 ds c.toNat := by
  have digits : ∀ ds, (Text.readDigits 16 ds).bind charOfNat? = some c ↔
      Text.Writes 16 ds c.toNat := by
    intro ds
    simp [Option.bind_eq_some_iff, charOfNat?_eq_some_iff, Text.readDigits_eq_some_iff]
  unfold charOfHex?
  split
  · next ds =>
    rw [digits]
    constructor
    · intro h
      exact .inr ⟨ds, rfl, h⟩
    · rintro (h | ⟨_, heq, h⟩)
      · exact absurd rfl (h.plain '+' List.mem_cons_self).2.1
      · exact (List.cons.inj heq).2 ▸ h
  · next hplus =>
    rw [digits]
    constructor
    · exact .inl
    · rintro (h | ⟨ds, rfl, -⟩)
      · exact h
      · exact absurd rfl (hplus ds)

/-! ### The numbers in a file -/

/-- Four hexadecimal digits that name a character. -/
def Names (taken : List Char) (c : Char) : Prop := taken.length = 4 ∧ Text.Writes 16 taken c.toNat

/-- Fewer than four digits, or digits after a plus sign, that give a character all the same. -/
def Abbreviates (taken : List Char) (c : Char) : Prop :=
  (taken.length < 4 ∧ Text.Writes 16 taken c.toNat) ∨
    ∃ ds, taken = '+' :: ds ∧ Text.Writes 16 ds c.toNat

/-- What a text is read as whose number has `before` in front and goes on with `rest`. -/
structure ReadsNumber (before rest out : List Char) : Prop where
  named : ∀ c, Names (rest.take 4) c → out = unescape before ++ c :: unescape (rest.drop 4)
  abbreviated : ∀ c, Abbreviates (rest.take 4) c →
    out = unescape before ++ c :: unescape (rest.drop 4)
  kept : (∀ c, ¬ Names (rest.take 4) c) → (∀ c, ¬ Abbreviates (rest.take 4) c) →
    out = unescape before ++ '\\' :: 'u' :: (rest.take 4 ++ unescape (rest.drop 4))

theorem charOfHex?_take_iff {rest : List Char} {c : Char} :
    charOfHex? (rest.take 4) = some c ↔ Names (rest.take 4) c ∨ Abbreviates (rest.take 4) c := by
  have hlen : (rest.take 4).length = 4 ∨ (rest.take 4).length < 4 := by
    rw [List.length_take]
    omega
  rw [charOfHex?_eq_some_iff, Names, Abbreviates, ← or_assoc]
  grind

theorem unescape_number {before : List Char} (h : Whole before) (rest : List Char) :
    ReadsNumber before rest (unescape (before ++ '\\' :: 'u' :: rest)) := by
  rw [unescape_append h, unescape_u]
  constructor
  · intro c hc
    rw [numbered, charOfHex?_take_iff.2 (.inl hc)]
    rfl
  · intro c hc
    rw [numbered, charOfHex?_take_iff.2 (.inr hc)]
    rfl
  · intro hnames habbr
    have hnone : charOfHex? (rest.take 4) = none := by
      rw [Option.eq_none_iff_forall_ne_some]
      intro c hc
      obtain hc | hc := charOfHex?_take_iff.1 hc
      · exact hnames c hc
      · exact habbr c hc
    rw [numbered, hnone]
    rfl

/-- Wherever a backslash and `u` stand in a key or value, as written, a number is read, unless
they belong to an escape that began before. -/
def NumbersRead (written out : List Char) : Prop :=
  ∀ before rest, written = before ++ '\\' :: 'u' :: rest →
    (Whole before ∧ ReadsNumber before rest out) ∨
      (¬ Whole before ∧ ∃ first last, before = first ++ last ∧ Whole first ∧ Open last)

theorem numbersRead_unescape (cs : List Char) : NumbersRead cs (unescape cs) := by
  rintro before rest rfl
  by_cases h : Whole before
  · exact .inl ⟨h, unescape_number h rest⟩
  · obtain ⟨first, last, rfl, hfirst, rfl | hlast⟩ := exists_open before
    · rw [List.append_nil] at h
      exact absurd hfirst h
    · exact .inr ⟨h, first, last, rfl, hfirst, hlast⟩

/-- In a file each logical line gives an entry, and the numbers in its key and in its value are
read where they stand. -/
theorem parse_numbers (text : String) :
    List.Forall₂ (fun line pair =>
        NumbersRead (splitEntry line).1 pair.1.toList ∧
          NumbersRead (Text.stripStart Text.isBlank (splitEntry line).2) pair.2.toList)
      (logicalLines (lines text.toList)) (parse text) := by
  rw [parse, List.forall₂_map_right_iff, List.forall₂_same]
  intro line _
  simp only [entry, String.toList_ofList]
  exact ⟨numbersRead_unescape _, numbersRead_unescape _⟩

theorem parse_numbers_kept :
    Names "0041".toList 'A' ∧ Whole ['x'] ∧
      (parse "k=x\\u0041\\u00g1").map Prod.snd = ["xA\\u00g1"] := by
  have hnames : Names "0041".toList 'A' :=
    ⟨by decide, Text.readDigits_eq_some_iff.1 (by decide)⟩
  have hwhole : Whole ['x'] := .plain (by decide) .nil
  refine ⟨hnames, hwhole, ?_⟩
  have hread := parse_numbers "k=x\\u0041\\u00g1"
  have hlines : logicalLines (lines "k=x\\u0041\\u00g1".toList) = ["k=x\\u0041\\u00g1".toList] := by
    decide +kernel
  rw [hlines] at hread
  generalize parse "k=x\\u0041\\u00g1" = pairs at hread ⊢
  obtain _ | ⟨⟨-, hvalue⟩, _ | _⟩ := hread
  obtain ⟨-, hreads⟩ | ⟨hopen, -⟩ := hvalue ['x'] "0041\\u00g1".toList (by decide +kernel)
  swap
  · exact absurd hwhole hopen
  have htext := hreads.named 'A' hnames
  have hrest : unescape ['x'] ++ 'A' :: unescape ("0041\\u00g1".toList.drop 4) =
      "xA\\u00g1".toList := by
    decide +kernel
  rw [List.map_cons, List.map_nil, String.toList_inj.1 (htext.trans hrest)]

/-- Numbers are read that are not four digits: one that the end of the text cuts short, and one
with a sign. -/
theorem parse_abbreviated :
    (∀ c, ¬ Names "41".toList c) ∧ parse "a=\\u41" = [("a", "A")] ∧
      (∀ c, ¬ Names "+041".toList c) ∧ parse "a=\\u+041" = [("a", "A")] := by
  refine ⟨?_, by decide +kernel, ?_, by decide +kernel⟩
  · intro c h
    exact absurd h.1 (by decide)
  · intro c h
    exact (h.2.plain '+' List.mem_cons_self).2.1 rfl

end LogConfig.PropertyFile
