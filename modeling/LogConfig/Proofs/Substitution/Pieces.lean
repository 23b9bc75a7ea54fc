import LogConfig.Proofs.Substitution.Evaluation

/-
  What can be left of a reference in an expanded text. The text is expanded once, piece by piece,
  and what is put together is not read again. It consists of the literal pieces of the text, of the
  values and of the defaults, and none of these opens a reference. So a reference in it is one that
  two pieces open where they meet, the `$` at the end of one and the brace at the beginning of the
  other.

  * `opening_infix_flatten_iff`: pieces that open no reference open one together exactly at a seam.
  * `output_opens_iff_seam`: hence an expanded text opens a reference exactly where the pieces it
    is composed of have a seam, and where they have none, expanding it again changes nothing.
  * `expanded_reference_left`: a text that leaves a reference, which a second expansion expands.
-/

namespace LogConfig.Substitution

/-! ### Pieces -/

variable {lookup : String → Option String} {resolving : List String}

/-- The pieces of a reading open no reference. -/
theorem Composes.plain {t : Template} {ps : List (List Char)}
    (h : Composes lookup resolving t ps) (ht : t.WellFormed) : ∀ p ∈ ps, opens p = 0 := by
  have enclosed : ∀ {before : List Char} {vs others : List (List Char)}, opens before = 0 →
      (∀ p ∈ vs, opens p = 0) → (∀ p ∈ others, opens p = 0) →
      ∀ p ∈ before :: vs ++ others, opens p = 0 := by
    intro before vs others hb hv ho p hp
    rw [List.cons_append, List.mem_cons, List.mem_append] at hp
    rcases hp with rfl | hp | hp
    · exact hb
    · exact hv p hp
    · exact ho p hp
  induction h with
  | literal =>
    intro p hp
    rw [List.mem_singleton.1 hp]
    exact ht
  | defined _ _ _ hread _ _ _ ihValue ihRest =>
    obtain ⟨hd, -, hr⟩ := ht
    exact enclosed hd.plain (ihValue hread.wellFormed) (ihRest hr)
  | undefined _ _ _ _ _ ihRest =>
    obtain ⟨hd, -, hr⟩ := ht
    exact enclosed hd.plain (List.forall_mem_nil _) (ihRest hr)
  | defaultedDefined _ _ _ hread _ _ _ ihValue ihRest =>
    obtain ⟨hd, -, -, hr⟩ := ht
    exact enclosed hd.plain (ihValue hread.wellFormed) (ihRest hr)
  | defaultedUndefined _ _ _ _ _ _ ihDefault ihRest =>
    obtain ⟨hd, -, hf, hr⟩ := ht
    exact enclosed hd.plain (ihDefault hf) (ihRest hr)

/-! ### Where pieces meet -/

/-- What opens a reference. -/
def opening : List Char := ['$', '{']

theorem opening_infix_iff {cs : List Char} : opening <:+: cs ↔ opens cs ≠ 0 := by
  constructor
  · rintro ⟨before, after, rfl⟩
    have hopen : opens (opening ++ after) = opens after + 1 := opens_open after
    rw [List.append_assoc, opens_append (by simp [opening]), hopen]
    omega
  · intro h
    rcases ho : breakOpen cs with _ | ⟨before, after⟩
    · exact absurd (breakOpen_eq_none_iff.1 ho) h
    · obtain ⟨rfl, -⟩ := breakOpen_eq_some_iff.1 ho
      exact ⟨before, after, by simp [opening]⟩

/-- Two texts open a reference together when one of them does, or where they meet. -/
theorem opening_infix_append_iff {cs ds : List Char} :
    opening <:+: cs ++ ds ↔ opening <:+: cs ∨ opening <:+: ds ∨
      cs.getLast? = some '$' ∧ ds.head? = some '{' := by
  rw [List.infix_append_iff]
  constructor
  · rintro (h | h | ⟨l₁, l₂, he, hs, hp⟩)
    · exact .inl h
    · exact .inr (.inl h)
    · rcases l₁ with _ | ⟨c, _ | ⟨d, l₁⟩⟩
      · exact .inr (.inl (he ▸ hp.isInfix))
      · cases he
        obtain ⟨before, rfl⟩ := hs
        obtain ⟨after, rfl⟩ := hp
        exact .inr (.inr ⟨by simp, by simp⟩)
      · obtain ⟨rfl, rfl, hnil⟩ : '$' = c ∧ '{' = d ∧ [] = l₁ ++ l₂ := by
          simpa [opening] using he
        obtain ⟨rfl, rfl⟩ := List.append_eq_nil_iff.1 hnil.symm
        exact .inl hs.isInfix
  · rintro (h | h | ⟨hc, hd⟩)
    · exact .inl h
    · exact .inr (.inl h)
    · obtain ⟨before, rfl⟩ := List.getLast?_eq_some_iff.1 hc
      obtain ⟨after, rfl⟩ := List.head?_eq_some_iff.1 hd
      exact .inr (.inr ⟨['$'], ['{'], rfl, List.suffix_append .., ⟨after, rfl⟩⟩)

/-- Somewhere in a sequence of pieces, one ends with `$` and what follows it begins with a brace. -/
def Seam (ps : List (List Char)) : Prop :=
  ∃ before p after, ps = before ++ p :: after ∧ p.getLast? = some '$' ∧
    after.flatten.head? = some '{'

theorem seam_cons_iff {p : List Char} {ps : List (List Char)} :
    Seam (p :: ps) ↔ p.getLast? = some '$' ∧ ps.flatten.head? = some '{' ∨ Seam ps := by
  constructor
  · rintro ⟨before, q, after, he, hq, hafter⟩
    cases before with
    | nil =>
      cases he
      exact .inl ⟨hq, hafter⟩
    | cons p' before =>
      cases he
      exact .inr ⟨before, q, after, rfl, hq, hafter⟩
  · rintro (⟨hp, hps⟩ | ⟨before, q, after, rfl, hq, hafter⟩)
    · exact ⟨[], p, ps, rfl, hp, hps⟩
    · exact ⟨p :: before, q, after, rfl, hq, hafter⟩

/-- Pieces that open no reference open one together exactly at a seam. -/
theorem opening_infix_flatten_iff {ps : List (List Char)} (h : ∀ p ∈ ps, opens p = 0) :
    opening <:+: ps.flatten ↔ Seam ps := by
  induction ps with
  | nil =>
    constructor
    · intro hi
      exact absurd rfl (opening_infix_iff.1 hi)
    · rintro ⟨before, p, after, he, -⟩
      simp at he
  | cons p ps ih =>
    have hp : ¬ opening <:+: p := fun hi =>
      absurd (h p List.mem_cons_self) (opening_infix_iff.1 hi)
    have hps := ih fun q hq => h q (List.mem_cons_of_mem p hq)
    rw [List.flatten_cons, opening_infix_append_iff, hps, seam_cons_iff]
    constructor
    · rintro (hi | hs | hm)
      · exact absurd hi hp
      · exact .inr hs
      · exact .inl hm
    · rintro (hm | hs)
      · exact .inr (.inr hm)
      · exact .inr (.inl hs)

/-! ### Expanded texts -/

/-- The pieces of an expanded text open no reference and are all there is. The text opens one
exactly where they have a seam, and where they have none it stays as it is when it is expanded
again, with whatever lookup. -/
structure Composed (out : List Char) (ps : List (List Char)) : Prop where
  plain : ∀ p ∈ ps, ¬ opening <:+: p
  whole : out = ps.flatten
  opening_iff : opening <:+: out ↔ Seam ps
  expand_again : ¬ Seam ps → ∀ lookup depth,
    (expand lookup depth (String.ofList out)).run = some (.ok out)
  substitute_again : ¬ Seam ps → ∀ lookup,
    substitute lookup (String.ofList out) = .ok (String.ofList out)

/-- A text that opens no reference stays as it is. -/
theorem expand_plain {cs : List Char} (h : ¬ opening <:+: cs) (lookup : String → Option String)
    (depth : Nat) : (expand lookup depth (String.ofList cs)).run = some (.ok cs) := by
  have hplain : opens cs = 0 := Decidable.not_not.1 fun hne => h (opening_infix_iff.2 hne)
  rw [expand, String.toList_ofList, expandWith_literal (breakOpen_eq_none_iff.2 hplain)]
  rfl

theorem Composes.composed {t : Template} {ps : List (List Char)}
    (h : Composes lookup resolving t ps) (ht : t.WellFormed) : Composed ps.flatten ps := by
  have hplain := h.plain ht
  have hiff := opening_infix_flatten_iff hplain
  have hstays : ¬ Seam ps → ∀ lookup depth,
      (expand lookup depth (String.ofList ps.flatten)).run = some (.ok ps.flatten) :=
    fun hs => expand_plain fun hi => hs (hiff.1 hi)
  exact {
    plain := fun p hp hi => absurd (hplain p hp) (opening_infix_iff.1 hi)
    whole := rfl
    opening_iff := hiff
    expand_again := hstays
    substitute_again := fun hs lookup' => substitute_eq_of_expand (hstays hs lookup'.value? 0) }

theorem eq_ok_of_toOption {α ε : Type} {r : Except ε α} {a : α} (h : r.toOption = some a) :
    r = .ok a := by
  cases r with
  | error e => cases h
  | ok b => exact congrArg Except.ok (Option.some.inj h)

/-- An expanded text is composed of literal pieces, of the text and of the values and defaults that
it stands for, and opens a reference only where two of them meet. -/
theorem output_opens_iff_seam :
    (∀ (lookup : String → Option String) (text : String) (out : List Char),
      (∃ depth, (expand lookup depth text).run = some (.ok out)) →
        ∃ t ps, Reads text.toList t ∧ Composes lookup [] t ps ∧ Composed out ps) ∧
    ∀ (lookup : Lookup) (text out : String), substitute lookup text = .ok out →
        ∃ t ps, Reads text.toList t ∧ Composes lookup.value? [] t ps ∧ Composed out.toList ps := by
  have composed : ∀ {lookup : String → Option String} {text : String} {t : Template}
      {out : List Char}, Reads text.toList t → Evaluates lookup [] t out →
      ∃ t ps, Reads text.toList t ∧ Composes lookup [] t ps ∧ Composed out ps := by
    intro lookup text t out ht he
    obtain ⟨ps, hps, rfl⟩ := he
    exact ⟨t, ps, ht, hps, hps.composed ht.wellFormed⟩
  constructor
  · intro lookup text out h
    obtain ⟨t, ht, he⟩ := exists_expand_iff.1 h
    exact composed ht he
  · intro lookup text out h
    obtain ⟨t, ht, he⟩ := substitute_eq_ok_iff.1 h
    exact composed ht he

theorem output_opens_iff_seam_price :
    ∃ t ps, Reads "cost: $$\x7bprice:-5\x7d".toList t ∧
      Composes (Lookup.ofEntries [("price", "7")]).value? [] t ps ∧
      Composed "cost: $7".toList ps :=
  output_opens_iff_seam.2 _ _ _ (eq_ok_of_toOption (by decide +kernel))

/-- A default that begins with a brace opens a reference with the text before it, which stays. -/
theorem expanded_reference_left :
    substitute (.ofEntries [("b", "x")]) "$$\x7ba:-\x7b\x7db\x7d" = .ok "$\x7bb\x7d" ∧
      opening <:+: "$\x7bb\x7d".toList ∧
      substitute (.ofEntries [("b", "x")]) "$\x7bb\x7d" = .ok "x" :=
  ⟨eq_ok_of_toOption (by decide +kernel), ⟨[], ['b', '}'], rfl⟩,
    eq_ok_of_toOption (by decide +kernel)⟩

end LogConfig.Substitution
