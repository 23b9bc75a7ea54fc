import LogConfig.Substitution

/-
  How an expansion is put together. `expandWith` is opened here once: its three equations, and
  what follows from them by one induction on the text, that an answer survives any change of the
  resolver that keeps the answers the expansion has used (`Extends.expandWith`). From it come that
  a larger bound keeps an answer (`resolveAt_mono`) and that `substitute` gives the answer of every
  bound that has one (`substitute_eq_of_expand`).
-/

namespace LogConfig.Substitution

/-! ### Bounded answers -/

/-- A sequence has an answer when its first part fails, or succeeds and the second part has one. -/
theorem run_bind_eq_some {α β : Type} {x : Bounded α} {f : α → Bounded β}
    {r : Except SubstitutionError β} :
    (x >>= f).run = some r ↔
      (∃ a, x.run = some (.ok a) ∧ (f a).run = some r) ∨
        ∃ e, x.run = some (.error e) ∧ r = .error e := by
  rcases hx : x.run with _ | e | a
  · have hx' : x = ExceptT.mk none := hx
    subst hx'
    simp only [reduceCtorEq, false_and, exists_false, or_false, iff_false]
    intro h
    cases h
  · have hx' : x = ExceptT.mk (some (.error e)) := hx
    subst hx'
    constructor
    · intro h
      exact .inr ⟨e, rfl, (Option.some.inj h).symm⟩
    · rintro (⟨a, ha, -⟩ | ⟨e', he, rfl⟩)
      · simp at ha
      · simp only [Option.some.injEq, Except.error.injEq] at he
        rw [← he]
        rfl
  · have hx' : x = ExceptT.mk (some (.ok a)) := hx
    subst hx'
    constructor
    · intro h
      exact .inl ⟨a, rfl, h⟩
    · rintro (⟨a', ha, h⟩ | ⟨e, he, -⟩)
      · simp only [Option.some.injEq, Except.ok.injEq] at ha
        rw [ha]
        exact h
      · simp at he

/-- A sequence fails with an error of one of its parts. -/
theorem run_bind_eq_error {α β : Type} {x : Bounded α} {f : α → Bounded β} {e : SubstitutionError}
    (h : (x >>= f).run = some (.error e)) :
    x.run = some (.error e) ∨ ∃ a, (f a).run = some (.error e) := by
  rcases run_bind_eq_some.1 h with ⟨a, -, ha⟩ | ⟨e', he, hr⟩
  · exact .inr ⟨a, ha⟩
  · cases hr
    exact .inl he

/-- A sequence succeeds when both parts do. -/
theorem run_bind_eq_ok {α β : Type} {x : Bounded α} {f : α → Bounded β} {b : β} :
    (x >>= f).run = some (.ok b) ↔ ∃ a, x.run = some (.ok a) ∧ (f a).run = some (.ok b) := by
  rw [run_bind_eq_some]
  constructor
  · rintro (h | ⟨e, -, he⟩)
    · exact h
    · cases he
  · exact .inl

/-! ### The equations of an expansion -/

variable {resolve : String → Bounded (Option (List Char))} {whole rest before after reference
  remaining : List Char} {offset : Nat}

/-- The value of a reference whose key expands to `key`. -/
def valueOf (resolve : String → Bounded (Option (List Char))) (default : Option (List Char))
    (key : List Char) : Bounded (List Char) :=
  resolve (String.ofList key) >>= fun
    | some value => pure value
    | none =>
      match default with
      | some text => expandWith resolve text 0 text
      | none => pure []

theorem expandWith_literal (ho : breakOpen rest = none) :
    expandWith resolve whole offset rest = pure rest := by
  rw [expandWith]
  split
  · rfl
  · next h => simp [ho] at h

theorem expandWith_unclosed (ho : breakOpen rest = some (before, after))
    (hc : breakClose 0 after = none) :
    expandWith resolve whole offset rest =
      throw (.unterminated (String.ofList whole) (offset + Text.byteSize before)) := by
  rw [expandWith]
  split
  · next h => simp [ho] at h
  · next h =>
    obtain ⟨rfl, rfl⟩ : before = _ ∧ after = _ := by simpa [ho] using h
    split
    · rfl
    · next h' => simp [hc] at h'

theorem expandWith_reference (ho : breakOpen rest = some (before, after))
    (hc : breakClose 0 after = some (reference, remaining)) :
    expandWith resolve whole offset rest = (do
      let key ← expandWith resolve (splitDefault 0 reference).1 0 (splitDefault 0 reference).1
      let value ← valueOf resolve (splitDefault 0 reference).2 key
      let others ← expandWith resolve whole
        (offset + Text.byteSize before + Text.byteSize reference + 3) remaining
      pure (before ++ value ++ others)) := by
  rw [expandWith]
  split
  · next h => simp [ho] at h
  · next h =>
    obtain ⟨rfl, rfl⟩ : before = _ ∧ after = _ := by simpa [ho] using h
    split
    · next h' => simp [hc] at h'
    · next h' =>
      obtain ⟨rfl, rfl⟩ : reference = _ ∧ remaining = _ := by simpa [hc] using h'
      unfold valueOf
      cases (splitDefault 0 reference).2 with
      | none => rfl
      | some text => rfl

/-! ### Answers that survive another resolver -/

/-- The answer is a value, or one of the errors in `P`. -/
def Passes {α : Type} (P : SubstitutionError → Prop) : Except SubstitutionError α → Prop
  | .ok _ => True
  | .error e => P e

theorem passes_true {α : Type} (r : Except SubstitutionError α) : Passes (fun _ => True) r := by
  cases r with
  | ok a => trivial
  | error e => trivial

/-- Every answer of `x` that passes is an answer of `y`. -/
def Extends {α : Type} (P : SubstitutionError → Prop) (x y : Bounded α) : Prop :=
  ∀ r, Passes P r → x.run = some r → y.run = some r

namespace Extends

variable {P : SubstitutionError → Prop}

theorem refl {α : Type} (x : Bounded α) : Extends P x x := fun _ _ h => h

/-- What has no answer is extended by anything. -/
theorem of_run_eq_none {α : Type} {x y : Bounded α} (h : x.run = none) : Extends P x y := by
  intro r _ hr
  rw [h] at hr
  cases hr

theorem bind {α β : Type} {x y : Bounded α} {f g : α → Bounded β} (hx : Extends P x y)
    (hf : ∀ a, Extends P (f a) (g a)) : Extends P (x >>= f) (y >>= g) := by
  intro r hr h
  rw [run_bind_eq_some] at h ⊢
  rcases h with ⟨a, ha, hfa⟩ | ⟨e, he, rfl⟩
  · exact .inl ⟨a, hx _ trivial ha, hf a r hr hfa⟩
  · exact .inr ⟨e, hx (.error e) hr he, rfl⟩

theorem valueOf {resolve resolve' : String → Bounded (Option (List Char))}
    (h : ∀ key, Extends P (resolve key) (resolve' key)) {default : Option (List Char)}
    (hd : ∀ text, default = some text →
      Extends P (expandWith resolve text 0 text) (expandWith resolve' text 0 text))
    (key : List Char) :
    Extends P (valueOf resolve default key) (valueOf resolve' default key) := by
  refine bind (h _) fun value => ?_
  cases value with
  | some value => exact refl _
  | none =>
    cases default with
    | some text => exact hd text rfl
    | none => exact refl _

/-- The induction is on the length of the text: key, default and the rest of a text with a
reference are all shorter than the text. -/
theorem expandWith {resolve resolve' : String → Bounded (Option (List Char))}
    (h : ∀ key, Extends P (resolve key) (resolve' key)) (whole : List Char) (offset : Nat)
    (rest : List Char) :
    Extends P (expandWith resolve whole offset rest) (expandWith resolve' whole offset rest) := by
  induction hn : rest.length using Nat.strongRecOn generalizing whole offset rest with
  | _ n ih =>
    subst hn
    rcases ho : breakOpen rest with _ | ⟨before, after⟩
    · rw [expandWith_literal ho, expandWith_literal ho]
      exact refl _
    rcases hc : breakClose 0 after with _ | ⟨reference, remaining⟩
    · rw [expandWith_unclosed ho hc, expandWith_unclosed ho hc]
      exact refl _
    have h1 := length_breakOpen ho
    have h2 := length_breakClose hc
    obtain ⟨h3, h4⟩ := length_splitDefault 0 reference
    rw [expandWith_reference ho hc, expandWith_reference ho hc]
    refine bind (ih _ (by omega) _ _ _ rfl) fun key => bind (valueOf h ?_ key) fun value =>
      bind (ih _ (by omega) _ _ _ rfl) fun others => refl _
    intro text ht
    have := h4 text ht
    exact ih _ (by omega) _ _ _ rfl

end Extends

/-! ### Bounds -/

variable (lookup : String → Option String)

theorem resolveAt_circle {resolving : List String} {key : String} (h : key ∈ resolving)
    (depth : Nat) :
    resolveAt lookup depth resolving key = throw (.circle (resolving ++ [key])) := by
  unfold resolveAt
  rw [if_pos h]

theorem resolveAt_undefined {lookup : String → Option String} {resolving : List String}
    {key : String} (h : key ∉ resolving) (hl : lookup key = none) (depth : Nat) :
    resolveAt lookup depth resolving key = pure none := by
  unfold resolveAt
  rw [if_neg h, hl]

theorem resolveAt_zero {lookup : String → Option String} {resolving : List String}
    {key raw : String} (h : key ∉ resolving) (hl : lookup key = some raw) :
    resolveAt lookup 0 resolving key = tooDeep := by
  unfold resolveAt
  rw [if_neg h, hl]

theorem resolveAt_succ {lookup : String → Option String} {resolving : List String}
    {key raw : String} (h : key ∉ resolving) (hl : lookup key = some raw) (depth : Nat) :
    resolveAt lookup (depth + 1) resolving key =
      expandWith (resolveAt lookup depth (resolving ++ [key])) raw.toList 0 raw.toList >>=
        fun value => pure (some value) := by
  unfold resolveAt
  rw [if_neg h, hl]

/-- A larger bound keeps every answer. -/
theorem resolveAt_mono (P : SubstitutionError → Prop) {depth depth' : Nat} (hd : depth ≤ depth')
    (resolving : List String) (key : String) :
    Extends P (resolveAt lookup depth resolving key) (resolveAt lookup depth' resolving key) := by
  by_cases hk : key ∈ resolving
  · rw [resolveAt_circle lookup hk, resolveAt_circle lookup hk]
    exact .refl _
  cases hl : lookup key with
  | none =>
    rw [resolveAt_undefined hk hl, resolveAt_undefined hk hl]
    exact .refl _
  | some raw =>
    cases depth with
    | zero =>
      rw [resolveAt_zero hk hl]
      exact .of_run_eq_none rfl
    | succ depth =>
      obtain ⟨depth', rfl⟩ : ∃ m, depth' = m + 1 := ⟨depth' - 1, by omega⟩
      rw [resolveAt_succ hk hl, resolveAt_succ hk hl]
      have below : ∀ k, Extends P (resolveAt lookup depth (resolving ++ [key]) k)
          (resolveAt lookup depth' (resolving ++ [key]) k) :=
        fun k => resolveAt_mono P (by omega) _ k
      exact .bind (.expandWith below _ _ _) fun _ => .refl _

/-- Answers at two bounds are the same answer. -/
theorem expand_unique {depth depth' : Nat} {text : String}
    {r r' : Except SubstitutionError (List Char)} (h : (expand lookup depth text).run = some r)
    (h' : (expand lookup depth' text).run = some r') : r = r' := by
  have grows : ∀ {m n : Nat}, m ≤ n → Extends (fun _ => True) (expand lookup m text)
      (expand lookup n text) := fun hmn =>
    .expandWith (fun key => resolveAt_mono lookup _ hmn [] key) _ _ _
  have hm := grows (Nat.le_max_left depth depth') r (passes_true r) h
  have hm' := grows (Nat.le_max_right depth depth') r' (passes_true r') h'
  exact Option.some.inj (hm.symm.trans hm')

/-- The bound that `substitute` uses has an answer, and that is what it returns. -/
theorem substitute_spec (lookup : Lookup) (text : String) :
    ∃ r, (expand lookup.value? lookup.keys.length text).run = some r ∧
      substitute lookup text = r.map String.ofList :=
  ⟨_, (Option.some_get (expand_isSome lookup text)).symm, rfl⟩

/-- The answer of any bound is what `substitute` returns. -/
theorem substitute_eq_of_expand {lookup : Lookup} {depth : Nat} {text : String}
    {r : Except SubstitutionError (List Char)}
    (h : (expand lookup.value? depth text).run = some r) :
    substitute lookup text = r.map String.ofList := by
  obtain ⟨r', h', hs⟩ := substitute_spec lookup text
  rw [hs, expand_unique lookup.value? h' h]

end LogConfig.Substitution
