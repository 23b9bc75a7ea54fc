import LogConfig.Proofs.Substitution.Expansion

/-
  The check for circles is exact. Beside `expand` stands the expansion that does not check whether
  a key is being resolved already (`expandFreely`). It is cut off only by its bound, so it never
  finishes when it has no answer at any bound.

  Proved:
  * `resolveFreely_of_resolveAt`: an answer under the check that is no circle is an answer without
    it, bound by bound.
  * `resolveAt_of_resolveFreely`: an answer without the check is one under it. The keys being
    resolved are those whose free resolution has no answer at the bound that is left, so a key with
    an answer is never one of them.
  * `notCircle_resolveFreely`: without the check no circle is ever reported.
  * `substitute_eq_unguarded`: a circle is reported exactly where the free expansion never
    finishes, and everything else is its very answer.
-/

namespace LogConfig.Substitution

/-- The expanded value of a key, where at most `depth` resolutions may nest and nothing else stops
them. -/
def resolveFreely (lookup : String → Option String) :
    Nat → String → Bounded (Option (List Char))
  | depth, key =>
    match lookup key with
    | none => pure none
    | some raw =>
      match depth with
      | 0 => tooDeep
      | depth + 1 => do
        let value ← expandWith (resolveFreely lookup depth) raw.toList 0 raw.toList
        pure (some value)

/-- Expands a text with at most `depth` nested resolutions and no check for circles. -/
def expandFreely (lookup : String → Option String) (depth : Nat) (text : String) :
    Bounded (List Char) :=
  expandWith (resolveFreely lookup depth) text.toList 0 text.toList

/-- The expansion without the check ends with an answer. -/
def FinishesFreely (lookup : String → Option String) (text : String)
    (r : Except SubstitutionError (List Char)) : Prop :=
  ∃ depth, (expandFreely lookup depth text).run = some r

/-- Whether an error is something else than a circle. -/
def NotCircle (e : SubstitutionError) : Prop := ∀ chain, e ≠ .circular chain

section Equations

variable {lookup : String → Option String} {key raw : String}

theorem resolveFreely_undefined (hl : lookup key = none) (depth : Nat) :
    resolveFreely lookup depth key = pure none := by
  unfold resolveFreely
  rw [hl]

theorem resolveFreely_zero (hl : lookup key = some raw) :
    resolveFreely lookup 0 key = tooDeep := by
  unfold resolveFreely
  rw [hl]

theorem resolveFreely_succ (hl : lookup key = some raw) (depth : Nat) :
    resolveFreely lookup (depth + 1) key =
      expandWith (resolveFreely lookup depth) raw.toList 0 raw.toList >>=
        fun value => pure (some value) := by
  unfold resolveFreely
  rw [hl]

end Equations

variable {lookup : String → Option String}

/-- A larger bound keeps every answer. -/
theorem resolveFreely_succ_extends (P : SubstitutionError → Prop) (depth : Nat) (key : String) :
    Extends P (resolveFreely lookup depth key) (resolveFreely lookup (depth + 1) key) := by
  cases hl : lookup key with
  | none =>
    rw [resolveFreely_undefined hl, resolveFreely_undefined hl]
    exact .refl _
  | some raw =>
    cases depth with
    | zero =>
      rw [resolveFreely_zero hl]
      exact .of_run_eq_none rfl
    | succ depth =>
      rw [resolveFreely_succ hl, resolveFreely_succ hl]
      exact .bind (.expandWith (resolveFreely_succ_extends P depth) _ _ _) fun _ => .refl _

/-! ### From the checked expansion to the free one -/

/-- An answer that is no circle does not depend on the check. -/
theorem resolveFreely_of_resolveAt (depth : Nat) (resolving : List String) (key : String) :
    Extends NotCircle (resolveAt lookup depth resolving key) (resolveFreely lookup depth key) := by
  by_cases hk : key ∈ resolving
  · rw [resolveAt_circle lookup hk]
    intro r hr h
    cases h
    exact absurd rfl (hr _)
  cases hl : lookup key with
  | none =>
    rw [resolveAt_undefined hk hl, resolveFreely_undefined hl]
    exact .refl _
  | some raw =>
    cases depth with
    | zero =>
      rw [resolveAt_zero hk hl]
      exact .of_run_eq_none rfl
    | succ depth =>
      rw [resolveAt_succ hk hl, resolveFreely_succ hl]
      exact .bind (.expandWith (resolveFreely_of_resolveAt depth _) _ _ _) fun _ => .refl _

/-! ### From the free expansion to the checked one -/

/-- A key whose free resolution has an answer has the same one under the check, as long as the
keys being resolved have none at this bound. -/
theorem resolveAt_of_resolveFreely (depth : Nat) (resolving : List String)
    (hd : ∀ k ∈ resolving, (resolveFreely lookup depth k).run = none) (key : String)
    (r : Except SubstitutionError (Option (List Char)))
    (h : (resolveFreely lookup depth key).run = some r) :
    (resolveAt lookup depth resolving key).run = some r := by
  have hk : key ∉ resolving := by
    intro hk
    rw [hd key hk] at h
    cases h
  cases hl : lookup key with
  | none =>
    rw [resolveFreely_undefined hl] at h
    rw [resolveAt_undefined hk hl]
    exact h
  | some raw =>
    cases depth with
    | zero =>
      rw [resolveFreely_zero hl] at h
      cases h
    | succ depth =>
      have grows : ∀ k r', (resolveFreely lookup depth k).run = some r' →
          (resolveFreely lookup (depth + 1) k).run = some r' := fun k r' =>
        resolveFreely_succ_extends (fun _ => True) depth k r' (passes_true r')
      have below : ∀ k ∈ resolving, (resolveFreely lookup depth k).run = none := by
        intro k hmem
        cases hf : (resolveFreely lookup depth k).run with
        | none => rfl
        | some r' =>
          have := grows k r' hf
          rw [hd k hmem] at this
          cases this
      cases hf : (resolveFreely lookup depth key).run with
      | some r' =>
        -- the answer needs less than the bound, so the key is not met again on the way to it
        obtain rfl : r' = r := Option.some.inj ((grows key r' hf).symm.trans h)
        have hsmaller := resolveAt_of_resolveFreely depth resolving below key r' hf
        exact resolveAt_mono lookup _ (Nat.le_succ depth) resolving key r' (passes_true r') hsmaller
      | none =>
        -- the key has no answer at the smaller bound, so it may join those being resolved
        have joined : ∀ k ∈ resolving ++ [key], (resolveFreely lookup depth k).run = none := by
          intro k hmem
          rcases List.mem_append.1 hmem with hmem | hmem
          · exact below k hmem
          · rw [List.mem_singleton.1 hmem]
            exact hf
        rw [resolveFreely_succ hl] at h
        rw [resolveAt_succ hk hl]
        refine Extends.bind (.expandWith ?_ _ _ _) (fun _ => .refl _) r (passes_true r) h
        intro k r' _ hr'
        exact resolveAt_of_resolveFreely depth (resolving ++ [key]) joined k r' hr'

/-- An answer of the free expansion is an answer of the checked one at the same bound. -/
theorem expand_of_expandFreely {depth : Nat} {text : String}
    {r : Except SubstitutionError (List Char)} (h : (expandFreely lookup depth text).run = some r) :
    (expand lookup depth text).run = some r := by
  have resolver : ∀ key, Extends (fun _ => True) (resolveFreely lookup depth key)
      (resolveAt lookup depth [] key) := by
    intro key r' _ hr'
    exact resolveAt_of_resolveFreely depth [] (by simp) key r' hr'
  exact Extends.expandWith resolver _ _ _ r (passes_true r) h

/-! ### The free expansion reports no circle -/

/-- An expansion fails with an error of its own markup or with one of its resolver. -/
theorem notCircle_expandWith {resolve : String → Bounded (Option (List Char))}
    (h : ∀ key e, (resolve key).run = some (.error e) → NotCircle e) (whole : List Char)
    (offset : Nat) (rest : List Char) (e : SubstitutionError)
    (he : (expandWith resolve whole offset rest).run = some (.error e)) : NotCircle e := by
  induction hn : rest.length using Nat.strongRecOn generalizing whole offset rest e with
  | _ n ih =>
    subst hn
    rcases ho : breakOpen rest with _ | ⟨before, after⟩
    · rw [expandWith_literal ho] at he
      cases he
    rcases hc : breakClose 0 after with _ | ⟨reference, remaining⟩
    · rw [expandWith_unclosed ho hc] at he
      cases he
      intro chain hchain
      cases hchain
    have h1 := length_breakOpen ho
    have h2 := length_breakClose hc
    obtain ⟨h3, h4⟩ := length_splitDefault 0 reference
    rw [expandWith_reference ho hc] at he
    rcases run_bind_eq_error he with hkey | ⟨key, he⟩
    · exact ih _ (by omega) _ _ _ _ hkey rfl
    rcases run_bind_eq_error he with hvalue | ⟨value, he⟩
    · rcases run_bind_eq_error hvalue with hresolve | ⟨value, hvalue⟩
      · exact h _ e hresolve
      · cases value with
        | some value => cases hvalue
        | none =>
          cases hd : (splitDefault 0 reference).2 with
          | none =>
            rw [hd] at hvalue
            cases hvalue
          | some text =>
            have := h4 text hd
            rw [hd] at hvalue
            exact ih _ (by omega) _ _ _ _ hvalue rfl
    rcases run_bind_eq_error he with hrest | ⟨others, he⟩
    · exact ih _ (by omega) _ _ _ _ hrest rfl
    · cases he

theorem notCircle_resolveFreely (depth : Nat) (key : String) (e : SubstitutionError)
    (he : (resolveFreely lookup depth key).run = some (.error e)) : NotCircle e := by
  cases hl : lookup key with
  | none =>
    rw [resolveFreely_undefined hl] at he
    cases he
  | some raw =>
    cases depth with
    | zero =>
      rw [resolveFreely_zero hl] at he
      cases he
    | succ depth =>
      rw [resolveFreely_succ hl] at he
      rcases run_bind_eq_error he with he | ⟨value, hvalue⟩
      · exact notCircle_expandWith (notCircle_resolveFreely depth) _ _ _ _ he
      · cases hvalue

/-! ### The answers of `substitute` -/

/-- Where the free expansion finishes, the checked one gives the same answer, which is no circle. -/
theorem substitute_of_finishesFreely {lookup : Lookup} {text : String}
    {r : Except SubstitutionError (List Char)} (h : FinishesFreely lookup.value? text r) :
    substitute lookup text = r.map String.ofList ∧ Passes NotCircle r := by
  obtain ⟨depth, h⟩ := h
  refine ⟨substitute_eq_of_expand (expand_of_expandFreely h), ?_⟩
  cases r with
  | ok out => trivial
  | error e => exact notCircle_expandWith (notCircle_resolveFreely depth) _ _ _ e h

/-- An answer of the checked expansion that is no circle is one of the free expansion. -/
theorem finishesFreely_of_substitute {lookup : Lookup} {text : String}
    {r : Except SubstitutionError (List Char)} (h : substitute lookup text = r.map String.ofList)
    (hr : Passes NotCircle r) : FinishesFreely lookup.value? text r := by
  obtain ⟨r', hrun, hs⟩ := substitute_spec lookup text
  have same : r' = r := by
    rw [hs] at h
    rcases r' with e' | out' <;> rcases r with e | out
    · exact congrArg Except.error (Except.error.inj h)
    · cases h
    · cases h
    · exact congrArg Except.ok (String.ofList_injective (Except.ok.inj h))
  subst same
  exact ⟨_, Extends.expandWith (fun key => resolveFreely_of_resolveAt _ [] key) _ _ _ r' hr hrun⟩

/-- A circle is reported exactly where the expansion without the check runs through every bound,
and every other answer is exactly that of the expansion without the check. -/
theorem substitute_eq_unguarded (lookup : Lookup) (text : String) :
    ((∃ chain, substitute lookup text = .error (.circular chain)) ↔
      ∀ depth, (expandFreely lookup.value? depth text).run = none) ∧
    ∀ r, FinishesFreely lookup.value? text r ↔
      substitute lookup text = r.map String.ofList ∧ Passes NotCircle r := by
  refine ⟨⟨?_, ?_⟩, fun r => ⟨substitute_of_finishesFreely, fun h =>
    finishesFreely_of_substitute h.1 h.2⟩⟩
  · rintro ⟨chain, hchain⟩ depth
    cases hf : (expandFreely lookup.value? depth text).run with
    | none => rfl
    | some r =>
      obtain ⟨hs, hr⟩ := substitute_of_finishesFreely ⟨depth, hf⟩
      rw [hchain] at hs
      cases r with
      | ok out => cases hs
      | error e =>
        obtain rfl := Except.error.inj hs
        exact absurd rfl (hr chain)
  · intro hnone
    obtain ⟨r, -, hs⟩ := substitute_spec lookup text
    have stuck : ¬ Passes NotCircle r := by
      intro hr
      obtain ⟨depth, hf⟩ := finishesFreely_of_substitute hs hr
      rw [hnone depth] at hf
      cases hf
    rcases r with (⟨t, start⟩ | chain) | out
    · exact absurd (by intro chain h; cases h) stuck
    · exact ⟨chain, hs⟩
    · exact absurd trivial stuck

end LogConfig.Substitution
