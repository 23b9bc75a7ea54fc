import LogConfig.Proofs.Substitution.Expansion
import LogConfig.Proofs.Substitution.Reading

/-
  Expansion as parsing and evaluation. `Composes` gives the pieces that a template comes to, with
  the keys that are being resolved, and `Evaluates` its value, which they make up; `expandWith`
  never builds a template and cuts the text as it goes.

  Proved:
  * `evaluates_of_expandWith`: an expansion evaluates a reading of its text. The induction is on
    the bound, and inside on the length of the text. A default that was not expanded is closed
    (`Balanced.split`), so it has a reading too.
  * `Composes.expands`: an evaluation is an expansion. The induction is on the evaluation, which
    also finds the bound.
  * `substitute_eq_parse_evaluate`: readings are unique, and both directions for every lookup.
-/

namespace LogConfig.Substitution

/-- The literal pieces that a template comes to, in the order in which they are put out, where the
keys in the list are being resolved. -/
inductive Composes (lookup : String → Option String) :
    List String → Template → List (List Char) → Prop where
  | literal {resolving : List String} {text : List Char} :
    Composes lookup resolving (.literal text) [text]
  /-- The raw value of a defined key is read and evaluated with the key among those resolved. -/
  | defined {resolving : List String} {before : List Char} {key rest value : Template}
      {ks vs others : List (List Char)} {raw : String} :
    Composes lookup resolving key ks →
    String.ofList ks.flatten ∉ resolving → lookup (String.ofList ks.flatten) = some raw →
    Reads raw.toList value → Composes lookup (resolving ++ [String.ofList ks.flatten]) value vs →
    Composes lookup resolving rest others →
    Composes lookup resolving (.reference before key rest) (before :: vs ++ others)
  /-- An undefined key without a default is nothing. -/
  | undefined {resolving : List String} {before : List Char} {key rest : Template}
      {ks others : List (List Char)} :
    Composes lookup resolving key ks →
    String.ofList ks.flatten ∉ resolving → lookup (String.ofList ks.flatten) = none →
    Composes lookup resolving rest others →
    Composes lookup resolving (.reference before key rest) (before :: [] ++ others)
  /-- The default of a defined key is not evaluated. -/
  | defaultedDefined {resolving : List String} {before : List Char}
      {key default rest value : Template} {ks vs others : List (List Char)} {raw : String} :
    Composes lookup resolving key ks →
    String.ofList ks.flatten ∉ resolving → lookup (String.ofList ks.flatten) = some raw →
    Reads raw.toList value → Composes lookup (resolving ++ [String.ofList ks.flatten]) value vs →
    Composes lookup resolving rest others →
    Composes lookup resolving (.defaulted before key default rest) (before :: vs ++ others)
  /-- The default of an undefined key takes its place. -/
  | defaultedUndefined {resolving : List String} {before : List Char}
      {key default rest : Template} {ks vs others : List (List Char)} :
    Composes lookup resolving key ks →
    String.ofList ks.flatten ∉ resolving → lookup (String.ofList ks.flatten) = none →
    Composes lookup resolving default vs →
    Composes lookup resolving rest others →
    Composes lookup resolving (.defaulted before key default rest) (before :: vs ++ others)

/-- The value of a template where the keys in the list are being resolved: its pieces, put
together. -/
def Evaluates (lookup : String → Option String) (resolving : List String) (t : Template)
    (out : List Char) : Prop :=
  ∃ ps, Composes lookup resolving t ps ∧ out = ps.flatten

/-- The expanded value of a key, or none for an undefined one. -/
def Resolves (lookup : String → Option String) (resolving : List String) (key : String) :
    Option (List Char) → Prop
  | none => key ∉ resolving ∧ lookup key = none
  | some v => key ∉ resolving ∧ ∃ raw t, lookup key = some raw ∧ Reads raw.toList t ∧
      Evaluates lookup (resolving ++ [key]) t v

variable {lookup : String → Option String} {resolving : List String}

/-- The pieces of a reference: what stands before it, its value, and what follows it. -/
theorem flatten_pieces (before : List Char) (vs others : List (List Char)) :
    (before :: vs ++ others).flatten = before ++ vs.flatten ++ others.flatten := by
  rw [List.flatten_append, List.flatten_cons]

/-! ### Expansions are evaluations -/

theorem evaluates_literal (text : List Char) : Evaluates lookup resolving (.literal text) text :=
  ⟨[text], .literal, List.flatten_singleton.symm⟩

theorem evaluates_reference {before k others : List Char} {key rest : Template}
    {v : Option (List Char)} (hk : Evaluates lookup resolving key k)
    (hv : Resolves lookup resolving (String.ofList k) v)
    (hr : Evaluates lookup resolving rest others) :
    Evaluates lookup resolving (.reference before key rest) (before ++ v.getD [] ++ others) := by
  obtain ⟨ks, hks, rfl⟩ := hk
  obtain ⟨rs, hrs, rfl⟩ := hr
  cases v with
  | none => exact ⟨_, .undefined hks hv.1 hv.2 hrs, (flatten_pieces before [] rs).symm⟩
  | some v =>
    obtain ⟨hn, raw, t, hl, ht, vs, hvs, rfl⟩ := hv
    exact ⟨_, .defined hks hn hl ht hvs hrs, (flatten_pieces before vs rs).symm⟩

theorem evaluates_defaulted {before k d others : List Char} {key default rest : Template}
    {v : Option (List Char)} (hk : Evaluates lookup resolving key k)
    (hv : Resolves lookup resolving (String.ofList k) v)
    (hd : v = none → Evaluates lookup resolving default d)
    (hr : Evaluates lookup resolving rest others) :
    Evaluates lookup resolving (.defaulted before key default rest)
      (before ++ v.getD d ++ others) := by
  obtain ⟨ks, hks, rfl⟩ := hk
  obtain ⟨rs, hrs, rfl⟩ := hr
  cases v with
  | none =>
    obtain ⟨ds, hds, rfl⟩ := hd rfl
    exact ⟨_, .defaultedUndefined hks hv.1 hv.2 hds hrs, (flatten_pieces before ds rs).symm⟩
  | some v =>
    obtain ⟨hn, raw, t, hl, ht, vs, hvs, rfl⟩ := hv
    exact ⟨_, .defaultedDefined hks hn hl ht hvs hrs, (flatten_pieces before vs rs).symm⟩

/-- An expansion whose resolver resolves keys evaluates a reading of its text. -/
theorem evaluates_of_expandWith {resolve : String → Bounded (Option (List Char))}
    (h : ∀ key v, (resolve key).run = some (.ok v) → Resolves lookup resolving key v)
    {whole : List Char} {offset : Nat} {cs out : List Char}
    (he : (expandWith resolve whole offset cs).run = some (.ok out)) :
    ∃ t, Reads cs t ∧ Evaluates lookup resolving t out := by
  induction hn : cs.length using Nat.strongRecOn generalizing whole offset cs out with
  | _ n ih =>
    subst hn
    rcases ho : breakOpen cs with _ | ⟨before, after⟩
    · rw [expandWith_literal ho] at he
      cases he
      exact ⟨_, .literal (breakOpen_eq_none_iff.1 ho), evaluates_literal cs⟩
    rcases hc : breakClose 0 after with _ | ⟨body, remaining⟩
    · rw [expandWith_unclosed ho hc] at he
      cases he
    have h1 := length_breakOpen ho
    have h2 := length_breakClose hc
    obtain ⟨h3, h4⟩ := length_splitDefault 0 body
    rw [expandWith_reference ho hc] at he
    obtain ⟨k, hkey, he⟩ := run_bind_eq_ok.1 he
    obtain ⟨v, hvalue, he⟩ := run_bind_eq_ok.1 he
    obtain ⟨others, hothers, he⟩ := run_bind_eq_ok.1 he
    cases he
    obtain ⟨value?, hresolve, hvalue⟩ := run_bind_eq_ok.1 hvalue
    have hv := h _ _ hresolve
    obtain ⟨key, hkr, hke⟩ := ih _ (by omega) hkey rfl
    obtain ⟨rest, hrr, hre⟩ := ih _ (by omega) hothers rfl
    obtain ⟨rfl, hd⟩ := delimits_of_scan ho hc
    cases hdefault : (splitDefault 0 body).2 with
    | none =>
      rw [hdefault] at hd hvalue
      have hbody : body = (splitDefault 0 body).1 := by
        simpa [defaultTail] using hd.splits.whole
      rw [← hbody] at hd hkr
      have hvd : v = value?.getD [] := by
        cases value? with
        | none =>
          cases hvalue
          rfl
        | some v' =>
          cases hvalue
          rfl
      rw [hvd]
      exact ⟨_, .reference hd hkr hrr, evaluates_reference hke hv hre⟩
    | some dtext =>
      rw [hdefault] at hd hvalue
      have := h4 dtext hdefault
      cases value? with
      | none =>
        obtain ⟨default, hdr, hde⟩ := ih _ (by omega) hvalue rfl
        exact ⟨_, .defaulted hd hkr hdr hrr, evaluates_defaulted hke hv (fun _ => hde) hre⟩
      | some v' =>
        -- the default was not expanded, but it is closed and so has a reading
        cases hvalue
        obtain ⟨default, hdr⟩ := exists_reads (hd.balanced.split hd.splits).2
        refine ⟨_, .defaulted hd hkr hdr hrr, ?_⟩
        exact evaluates_defaulted (d := []) hke hv (fun hnone => by cases hnone) hre

theorem resolves_of_resolveAt (depth : Nat) (resolving : List String) (key : String)
    (v : Option (List Char)) (h : (resolveAt lookup depth resolving key).run = some (.ok v)) :
    Resolves lookup resolving key v := by
  by_cases hk : key ∈ resolving
  · rw [resolveAt_circle lookup hk] at h
    cases h
  cases hl : lookup key with
  | none =>
    rw [resolveAt_undefined hk hl] at h
    cases h
    exact ⟨hk, hl⟩
  | some raw =>
    cases depth with
    | zero =>
      rw [resolveAt_zero hk hl] at h
      cases h
    | succ depth =>
      rw [resolveAt_succ hk hl] at h
      obtain ⟨value, hvalue, h⟩ := run_bind_eq_ok.1 h
      cases h
      obtain ⟨t, ht, he⟩ := evaluates_of_expandWith (resolves_of_resolveAt depth _) hvalue
      exact ⟨hk, raw, t, hl, ht, he⟩

/-! ### Evaluations are expansions -/

/-- The text of a template expands to `out` at this bound, wherever it stands. -/
def Expands (lookup : String → Option String) (depth : Nat) (resolving : List String)
    (cs out : List Char) : Prop :=
  ∀ whole offset, (expandWith (resolveAt lookup depth resolving) whole offset cs).run =
    some (.ok out)

theorem Expands.mono {depth depth' : Nat} {cs out : List Char} (hd : depth ≤ depth')
    (h : Expands lookup depth resolving cs out) : Expands lookup depth' resolving cs out := by
  intro whole offset
  exact Extends.expandWith (P := fun _ => True)
    (fun key => resolveAt_mono lookup _ hd resolving key) whole offset cs (.ok out) trivial
    (h whole offset)

/-- A reference expands when its key, its value and what follows it do. -/
theorem Expands.enclosed {depth : Nat} {before body key rest k v others : List Char}
    {default : Option (List Char)} (hd : Delimits before body key default)
    (hk : Expands lookup depth resolving key k)
    (hv : (valueOf (resolveAt lookup depth resolving) default k).run = some (.ok v))
    (hr : Expands lookup depth resolving rest others) :
    Expands lookup depth resolving (enclosed before body rest) (before ++ v ++ others) := by
  intro whole offset
  rw [expandWith_reference (hd.breakOpen_eq rest) (hd.breakClose_eq rest), hd.splitDefault_eq]
  exact run_bind_eq_ok.2 ⟨k, hk _ _, run_bind_eq_ok.2 ⟨v, hv,
    run_bind_eq_ok.2 ⟨others, hr _ _, rfl⟩⟩⟩

/-- The value of a key that is defined, one level deeper. -/
theorem valueOf_defined {depth : Nat} {default : Option (List Char)} {k v : List Char}
    {raw : String} {t : Template} (hn : String.ofList k ∉ resolving)
    (hl : lookup (String.ofList k) = some raw) (ht : Reads raw.toList t)
    (hv : Expands lookup depth (resolving ++ [String.ofList k]) t.text v) :
    (valueOf (resolveAt lookup (depth + 1) resolving) default k).run = some (.ok v) := by
  refine run_bind_eq_ok.2 ⟨some v, ?_, rfl⟩
  rw [resolveAt_succ hn hl, ← ht.text_eq]
  exact run_bind_eq_ok.2 ⟨v, hv _ _, rfl⟩

theorem valueOf_undefined {depth : Nat} {default : Option (List Char)} {k v : List Char}
    (hn : String.ofList k ∉ resolving) (hl : lookup (String.ofList k) = none)
    (hv : match default with
      | some text => Expands lookup depth resolving text v
      | none => v = []) :
    (valueOf (resolveAt lookup depth resolving) default k).run = some (.ok v) := by
  refine run_bind_eq_ok.2 ⟨none, ?_, ?_⟩
  · rw [resolveAt_undefined hn hl]
    rfl
  · cases default with
    | none =>
      rw [hv]
      rfl
    | some text => exact hv _ _

/-- A bound that is enough for two, and one more for what stands a level deeper. -/
theorem exists_bound {P Q R : Nat → Prop} (hP : ∀ m n, m ≤ n → P m → P n)
    (hQ : ∀ m n, m ≤ n → Q m → Q n) (hR : ∀ m n, m ≤ n → R m → R n) (p : ∃ n, P n) (q : ∃ n, Q n)
    (r : ∃ n, R n) : ∃ n, P (n + 1) ∧ Q (n + 1) ∧ R n := by
  obtain ⟨l, hl⟩ := p
  obtain ⟨m, hm⟩ := q
  obtain ⟨n, hn⟩ := r
  exact ⟨l + m + n, hP _ _ (by omega) hl, hQ _ _ (by omega) hm, hR _ _ (by omega) hn⟩

/-- An evaluation of a well-formed template is an expansion of its text. -/
theorem Composes.expands {t : Template} {ps : List (List Char)}
    (h : Composes lookup resolving t ps) (ht : t.WellFormed) :
    ∃ depth, Expands lookup depth resolving t.text ps.flatten := by
  have grow : ∀ (R : List String) (cs out : List Char) (m n : Nat), m ≤ n →
      Expands lookup m R cs out → Expands lookup n R cs out := fun _ _ _ _ _ hd => .mono hd
  induction h with
  | literal =>
    refine ⟨0, fun whole offset => ?_⟩
    rw [Template.text, expandWith_literal (breakOpen_eq_none_iff.2 ht), List.flatten_singleton]
    rfl
  | defined _ hn hl hread _ _ ihKey ihValue ihRest =>
    obtain ⟨hd, hk, hr⟩ := ht
    obtain ⟨depth, key, others, value⟩ := exists_bound (grow _ _ _) (grow _ _ _) (grow _ _ _)
      (ihKey hk) (ihRest hr) (ihValue hread.wellFormed)
    rw [flatten_pieces]
    exact ⟨depth + 1, .enclosed hd key (valueOf_defined hn hl hread value) others⟩
  | undefined _ hn hl _ ihKey ihRest =>
    obtain ⟨hd, hk, hr⟩ := ht
    obtain ⟨depth, key, others, -⟩ := exists_bound (grow _ _ _) (grow _ _ _) (grow _ _ _)
      (ihKey hk) (ihRest hr) (ihRest hr)
    rw [flatten_pieces]
    exact ⟨depth + 1, .enclosed hd key (valueOf_undefined hn hl rfl) others⟩
  | defaultedDefined _ hn hl hread _ _ ihKey ihValue ihRest =>
    obtain ⟨hd, hk, -, hr⟩ := ht
    obtain ⟨depth, key, others, value⟩ := exists_bound (grow _ _ _) (grow _ _ _) (grow _ _ _)
      (ihKey hk) (ihRest hr) (ihValue hread.wellFormed)
    rw [flatten_pieces]
    exact ⟨depth + 1, .enclosed hd key (valueOf_defined hn hl hread value) others⟩
  | defaultedUndefined _ hn hl _ _ ihKey ihDefault ihRest =>
    obtain ⟨hd, hk, hf, hr⟩ := ht
    obtain ⟨depth, key, others, value⟩ := exists_bound (grow _ _ _) (grow _ _ _) (grow _ _ _)
      (ihKey hk) (ihRest hr) (ihDefault hf)
    rw [flatten_pieces]
    exact ⟨depth + 1, .enclosed hd key
      (valueOf_undefined hn hl (value.mono (Nat.le_succ depth))) others⟩

/-! ### Agreement -/

/-- Some bound is enough exactly for what a reading of the text evaluates to. -/
theorem exists_expand_iff {text : String} {out : List Char} :
    (∃ depth, (expand lookup depth text).run = some (.ok out)) ↔
      ∃ t, Reads text.toList t ∧ Evaluates lookup [] t out := by
  constructor
  · rintro ⟨depth, h⟩
    exact evaluates_of_expandWith (resolves_of_resolveAt depth []) h
  · rintro ⟨t, ht, ps, hps, rfl⟩
    obtain ⟨depth, h⟩ := hps.expands ht.wellFormed
    rw [ht.text_eq] at h
    exact ⟨depth, h _ _⟩

theorem substitute_eq_ok_iff {lookup : Lookup} {text out : String} :
    substitute lookup text = .ok out ↔
      ∃ t, Reads text.toList t ∧ Evaluates lookup.value? [] t out.toList := by
  rw [← exists_expand_iff]
  constructor
  · intro h
    obtain ⟨r, hr, hs⟩ := substitute_spec lookup text
    rw [hs] at h
    cases r with
    | error e => cases h
    | ok cs =>
      obtain rfl := Except.ok.inj h
      exact ⟨_, by rw [hr, String.toList_ofList]⟩
  · rintro ⟨depth, h⟩
    rw [substitute_eq_of_expand h, Except.map, String.ofList_toList]

/-- Substitution is parsing and evaluation: a text has at most one reading, and the text expands
exactly to what its reading evaluates to, for every lookup and in particular for one that defines
finitely many keys. -/
theorem substitute_eq_parse_evaluate :
    (∀ (cs : List Char) (t t' : Template), Reads cs t → Reads cs t' → t = t') ∧
    (∀ (lookup : String → Option String) (text : String) (out : List Char),
      (∃ depth, (expand lookup depth text).run = some (.ok out)) ↔
        ∃ t, Reads text.toList t ∧ Evaluates lookup [] t out) ∧
    ∀ (lookup : Lookup) (text out : String), substitute lookup text = .ok out ↔
      ∃ t, Reads text.toList t ∧ Evaluates lookup.value? [] t out.toList :=
  ⟨fun _ _ _ h h' => h.unique h', fun _ _ _ => exists_expand_iff, fun _ _ _ => substitute_eq_ok_iff⟩

end LogConfig.Substitution
