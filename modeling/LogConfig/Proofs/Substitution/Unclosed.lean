import LogConfig.Proofs.Substitution.Expansion
import LogConfig.Proofs.Substitution.Reading
import Mathlib.Data.List.Induction

/-
  References that are not closed. An expansion that fails for one names the text in which it
  stands and its place there. Keys and defaults are texts of their own, but all is closed in them
  (`Balanced.allClosed`), so the text is the one given or the value of a key, and the place is that
  of the first reference in it that no later brace closes: `unterminated_reported`. A text with
  such a reference has no expansion.
-/

namespace LogConfig.Substitution

/-! ### Closed and unclosed references -/

/-- No brace after a `${` closes it: each that follows closes a reference opened in between. -/
def Unclosed (after : List Char) : Prop := ∀ p, p ++ ['}'] <+: after → closes p < opens p

/-- The text has a `${` with this many bytes before it and these characters after it. -/
def OpensAt (cs : List Char) (offset : Nat) (after : List Char) : Prop :=
  ∃ before, cs = before ++ '$' :: '{' :: after ∧ Text.byteSize before = offset

/-- Every reference that a text opens is closed in it. -/
def AllClosed (cs : List Char) : Prop := ∀ after, '$' :: '{' :: after <:+ cs → ¬ Unclosed after

/-- The first reference left open has this many bytes before it, and all is closed in them. -/
def LeftOpen (cs : List Char) (offset : Nat) : Prop :=
  ∃ before after, cs = before ++ '$' :: '{' :: after ∧ Text.byteSize before = offset ∧
    AllClosed before ∧ Unclosed after

variable {cs ds before body after rest : List Char} {offset : Nat}

theorem Unclosed.of_append (h : Unclosed (cs ++ ds)) : Unclosed cs :=
  fun p hp => h p (hp.trans (List.prefix_append cs ds))

theorem not_unclosed_of_balanced (h : Balanced 0 body) : ¬ Unclosed (body ++ '}' :: rest) := by
  intro hopen
  have hless := hopen body ⟨rest, by simp⟩
  have hlevel := h.level
  omega

theorem opens_le_append (cs ds : List Char) : opens cs ≤ opens (cs ++ ds) := by
  fun_induction opens cs with
  | case1 cs ih =>
    rw [List.cons_append, List.cons_append, opens_open]
    omega
  | case2 c cs hne ih =>
    rw [List.cons_append]
    by_cases hc : c = '$' ∧ (cs ++ ds).head? = some '{'
    · obtain ⟨rfl, hhead⟩ := hc
      obtain ⟨more, hmore⟩ := List.head?_eq_some_iff.1 hhead
      cases cs with
      | nil => simp
      | cons d cs => exact absurd (by simpa using hmore) fun h => hne cs rfl (by rw [h.1])
    · rw [opens_cons fun hd hhead => hc ⟨hd, hhead⟩]
      exact ih
  | case3 => exact Nat.zero_le _

/-- A text closes no more than it opens if each of its braces finds something to close. -/
theorem closes_le_opens (h : ∀ p, p ++ ['}'] <+: cs → closes p < opens p) :
    closes cs ≤ opens cs := by
  induction cs using List.reverseRecOn with
  | nil => simp
  | append_singleton cs c ih =>
    have hcs := ih fun p hp => h p (hp.trans (List.prefix_append _ _))
    have hmono := opens_le_append cs [c]
    rw [closes_append]
    by_cases hc : c = '}'
    · subst hc
      have hless := h cs (List.prefix_refl _)
      rw [closes_close, closes_nil]
      omega
    · rw [closes_cons hc, closes_nil]
      omega

/-- Where the scanner finds no end, every brace closes something opened on the way or before. -/
theorem closes_lt_of_breakClose {depth : Nat} (h : breakClose depth cs = none) :
    ∀ p, p ++ ['}'] <+: cs → closes p < opens p + depth := by
  fun_induction breakClose depth cs with
  | case1 depth cs ih =>
    intro p hp
    obtain ⟨-, hc⟩ | ⟨q, rfl, hq⟩ := prefix_cons_iff.1 hp
    · exact absurd hc (by decide)
    obtain ⟨-, hc⟩ | ⟨q, rfl, hq'⟩ := prefix_cons_iff.1 hq
    · exact absurd hc (by decide)
    have := ih (Option.map_eq_none_iff.1 h) q hq'
    rw [opens_open, closes_cons (by decide), closes_cons (by decide)]
    omega
  | case2 cs => simp at h
  | case3 depth cs ih =>
    intro p hp
    obtain ⟨rfl, -⟩ | ⟨q, rfl, hq⟩ := prefix_cons_iff.1 hp
    · simp
    · have := ih (Option.map_eq_none_iff.1 h) q hq
      rw [opens_cons fun hc => absurd hc (by decide), closes_close]
      omega
  | case4 depth c cs hopen hzero hsucc ih =>
    have hc : c ≠ '}' := ne_close_of_cases hzero hsucc
    have ho : c = '$' → cs.head? ≠ some '{' :=
      head?_ne_of_not_open hopen (List.append_nil cs).symm
    intro p hp
    obtain ⟨-, hd⟩ | ⟨q, rfl, hq⟩ := prefix_cons_iff.1 hp
    · exact absurd hd.symm hc
    · have := ih (Option.map_eq_none_iff.1 h) q hq
      rwa [opens_cons fun hd => head?_of_prefix hq (ho hd), closes_cons hc]
  | case5 depth => simp

/-- What the scanner finds no end for has none. -/
theorem breakClose_eq_none_iff : breakClose 0 after = none ↔ Unclosed after := by
  constructor
  · exact closes_lt_of_breakClose
  · intro hopen
    rw [Option.eq_none_iff_forall_ne_some]
    rintro ⟨body, rest⟩ hsome
    obtain ⟨rfl, hbody⟩ := breakClose_eq_some_iff.1 hsome
    exact not_unclosed_of_balanced hbody hopen

/-! ### Texts in which all is closed -/

theorem AllClosed.append (hcs : AllClosed cs) (hds : AllClosed ds) (hhead : ds.head? ≠ some '{') :
    AllClosed (cs ++ ds) := by
  rintro after ⟨before, hsplit⟩ hopen
  obtain ⟨more, rfl, hmore⟩ | ⟨more, rfl, hmore⟩ := List.append_eq_append_iff.1 hsplit
  · -- the reference begins among `cs`
    match more with
    | [] => exact hds after (hmore ▸ List.suffix_refl _) hopen
    | [c] =>
      obtain ⟨rfl, rfl⟩ := List.cons.inj hmore
      exact hhead rfl
    | c :: d :: more =>
      cases hmore
      exact hcs more (List.suffix_append ..) hopen.of_append
  · exact hds after ⟨more, hmore.symm⟩ hopen

theorem AllClosed.open (hcs : AllClosed cs) (h : ¬ Unclosed cs) :
    AllClosed ('$' :: '{' :: cs) := by
  intro after hafter
  obtain heq | hafter := List.suffix_cons_iff.1 hafter
  · cases heq
    exact h
  obtain heq | hafter := List.suffix_cons_iff.1 hafter
  · cases heq
  · exact hcs after hafter

theorem AllClosed.cons {c : Char} (hcs : AllClosed cs) (hc : c ≠ '$') : AllClosed (c :: cs) := by
  intro after hafter
  obtain heq | hafter := List.suffix_cons_iff.1 hafter
  · exact absurd (List.cons.inj heq).1.symm hc
  · exact hcs after hafter

theorem allClosed_of_opens_eq_zero (h : opens cs = 0) : AllClosed cs := by
  rintro after ⟨before, rfl⟩
  rw [opens_append (by simp), opens_open] at h
  omega

/-- Were a reference of a balanced text open, the text would close less than it opens. -/
theorem Balanced.allClosed (h : Balanced 0 cs) : AllClosed cs := by
  rintro after ⟨before, rfl⟩ hopen
  have hbefore : closes before ≤ opens before :=
    closes_le_opens fun p hp => h.inner p (hp.trans (List.prefix_append _ _))
  have hafter : closes after ≤ opens after := closes_le_opens hopen
  have hlevel := h.level
  rw [opens_append (by simp), closes_append, opens_open, closes_cons (by decide),
    closes_cons (by decide)] at hlevel
  omega

/-- The key and the default of a reference leave nothing open. -/
theorem Delimits.allClosed {key : List Char} {default : Option (List Char)}
    (h : Delimits before body key default) :
    AllClosed key ∧ ∀ text, default = some text → AllClosed text := by
  cases default with
  | none =>
    have hkey : body = key := by simpa [defaultTail] using h.splits.whole
    exact ⟨hkey ▸ h.balanced.allClosed, by simp⟩
  | some text =>
    obtain ⟨hkey, htext⟩ := h.balanced.split h.splits
    refine ⟨hkey.allClosed, ?_⟩
    rintro _ ⟨⟩
    exact htext.allClosed

theorem AllClosed.enclosed (hbefore : opens before = 0) (hbody : Balanced 0 body)
    (hrest : AllClosed rest) : AllClosed (enclosed before body rest) := by
  have hafter : AllClosed (body ++ '}' :: rest) :=
    hbody.allClosed.append (hrest.cons (by decide)) (by simp)
  exact (allClosed_of_opens_eq_zero hbefore).append
    (hafter.open (not_unclosed_of_balanced hbody)) (by simp)

/-! ### The first reference left open -/

theorem AllClosed.not_leftOpen (h : AllClosed cs) : ¬ LeftOpen cs offset := by
  rintro ⟨before, after, rfl, -, -, hopen⟩
  exact h after (List.suffix_append ..) hopen

theorem LeftOpen.enclosed (hbefore : opens before = 0) (hbody : Balanced 0 body)
    (h : LeftOpen rest offset) :
    LeftOpen (enclosed before body rest)
      (Text.byteSize before + Text.byteSize body + 3 + offset) := by
  obtain ⟨first, after, rfl, rfl, hfirst, hopen⟩ := h
  refine ⟨Substitution.enclosed before body first, after, by simp [Substitution.enclosed], ?_,
    hfirst.enclosed hbefore hbody, hopen⟩
  have hsizes : '$'.utf8Size = 1 ∧ '{'.utf8Size = 1 ∧ '}'.utf8Size = 1 := by decide
  simp only [Substitution.enclosed, Text.byteSize_append, Text.byteSize_cons, hsizes]
  omega

/-- All references that begin before the first one left open are closed. -/
theorem LeftOpen.opensAt (h : LeftOpen cs offset) :
    ∃ after, OpensAt cs offset after ∧ Unclosed after ∧
      ∀ earlier < offset, ∀ after', OpensAt cs earlier after' → ¬ Unclosed after' := by
  obtain ⟨before, after, rfl, rfl, hclosed, hopen⟩ := h
  refine ⟨after, ⟨before, rfl, rfl⟩, hopen, ?_⟩
  rintro _ hlt after' ⟨first, hsplit, rfl⟩ hopen'
  obtain ⟨more, rfl, hmore⟩ | ⟨more, rfl, hmore⟩ := List.append_eq_append_iff.1 hsplit
  · rw [Text.byteSize_append] at hlt
    omega
  match more with
  | [] => simp at hlt
  | [c] =>
    cases hmore
  | c :: d :: more =>
    cases hmore
    exact hclosed more (List.suffix_append ..) hopen'.of_append

/-! ### What an expansion reports -/

section Reports

variable {resolve : String → Bounded (Option (List Char))} {t : String} {o : Nat}

/-- There is no value when the key has none, or when it is undefined and the default has none. -/
theorem valueOf_eq_error {default : Option (List Char)} {key : List Char} {e : SubstitutionError}
    (h : (valueOf resolve default key).run = some (.error e)) :
    (resolve (String.ofList key)).run = some (.error e) ∨
      ∃ text, default = some text ∧ (expandWith resolve text 0 text).run = some (.error e) := by
  obtain hkey | ⟨value, h⟩ := run_bind_eq_error h
  · exact .inl hkey
  cases value with
  | some value => cases h
  | none =>
    cases default with
    | none => cases h
    | some text => exact .inr ⟨text, rfl, h⟩

/-- A failed expansion of a part of a text names a reference that this part leaves open, unless the
failure is one of the resolver. -/
theorem expandWith_unterminated {P : String → Nat → Prop}
    (hresolve : ∀ key t o, (resolve key).run = some (.error (.unterminated t o)) → P t o)
    (whole : List Char) (offset : Nat) (rest : List Char)
    (h : (expandWith resolve whole offset rest).run = some (.error (.unterminated t o))) :
    P t o ∨ t = String.ofList whole ∧ ∃ n, o = offset + n ∧ LeftOpen rest n := by
  induction hn : rest.length using Nat.strongRecOn generalizing whole offset rest t o with
  | _ n ih =>
    subst hn
    rcases ho : breakOpen rest with _ | ⟨before, after⟩
    · rw [expandWith_literal ho] at h
      cases h
    have hplain := (breakOpen_eq_some_iff.1 ho).2
    rcases hc : breakClose 0 after with _ | ⟨reference, remaining⟩
    · rw [expandWith_unclosed ho hc] at h
      cases h
      exact .inr ⟨rfl, Text.byteSize before, rfl, before, after, (breakOpen_eq_some_iff.1 ho).1,
        rfl, allClosed_of_opens_eq_zero hplain, breakClose_eq_none_iff.1 hc⟩
    have h1 := length_breakOpen ho
    have h2 := length_breakClose hc
    obtain ⟨h3, h4⟩ := length_splitDefault 0 reference
    obtain ⟨hrest, hdelimits⟩ := delimits_of_scan ho hc
    obtain ⟨hkey, hdefault⟩ := hdelimits.allClosed
    rw [expandWith_reference ho hc] at h
    -- a key or a default is a text in which all is closed, so only the resolver fails in it
    have piece : ∀ {text : List Char}, text.length < rest.length → AllClosed text →
        (expandWith resolve text 0 text).run = some (.error (.unterminated t o)) → P t o := by
      intro text hlt hclosed herror
      obtain hp | ⟨-, n, -, hopen⟩ := ih _ hlt text 0 text herror rfl
      · exact hp
      · exact absurd hopen hclosed.not_leftOpen
    obtain hfail | ⟨key, h⟩ := run_bind_eq_error h
    · exact .inl (piece (by omega) hkey hfail)
    obtain hfail | ⟨value, h⟩ := run_bind_eq_error h
    · obtain hfail | ⟨text, htext, hfail⟩ := valueOf_eq_error hfail
      · exact .inl (hresolve _ t o hfail)
      · have hlt := h4 text htext
        exact .inl (piece (by omega) (hdefault text htext) hfail)
    obtain hfail | ⟨others, h⟩ := run_bind_eq_error h
    · obtain hp | ⟨ht, n, rfl, hopen⟩ := ih _ (by omega) _ _ _ hfail rfl
      · exact .inl hp
      · refine .inr ⟨ht, _, ?_, hrest ▸ hopen.enclosed hplain hdelimits.balanced⟩
        omega
    · cases h

/-- All is closed in a text that has an expansion. -/
theorem allClosed_of_expandWith (whole : List Char) (offset : Nat) (rest : List Char)
    {out : List Char} (h : (expandWith resolve whole offset rest).run = some (.ok out)) :
    AllClosed rest := by
  induction hn : rest.length using Nat.strongRecOn generalizing whole offset rest out with
  | _ n ih =>
    subst hn
    rcases ho : breakOpen rest with _ | ⟨before, after⟩
    · exact allClosed_of_opens_eq_zero (breakOpen_eq_none_iff.1 ho)
    rcases hc : breakClose 0 after with _ | ⟨reference, remaining⟩
    · rw [expandWith_unclosed ho hc] at h
      cases h
    have h1 := length_breakOpen ho
    have h2 := length_breakClose hc
    obtain ⟨hrest, hdelimits⟩ := delimits_of_scan ho hc
    rw [expandWith_reference ho hc] at h
    obtain ⟨key, -, h⟩ := run_bind_eq_ok.1 h
    obtain ⟨value, -, h⟩ := run_bind_eq_ok.1 h
    obtain ⟨others, hothers, -⟩ := run_bind_eq_ok.1 h
    rw [hrest]
    exact (ih _ (by omega) _ _ _ hothers rfl).enclosed hdelimits.plain hdelimits.balanced

end Reports

variable {lookup : String → Option String} {t : String} {o : Nat}

/-- What is reported while a key is resolved is about the value of some key. -/
theorem resolveAt_unterminated {depth : Nat} {resolving : List String} {key t : String} {o : Nat}
    (h : (resolveAt lookup depth resolving key).run = some (.error (.unterminated t o))) :
    (∃ key, lookup key = some t) ∧ LeftOpen t.toList o := by
  by_cases hk : key ∈ resolving
  · rw [resolveAt_circle lookup hk] at h
    cases h
  cases hl : lookup key with
  | none =>
    rw [resolveAt_undefined hk hl] at h
    cases h
  | some raw =>
    cases depth with
    | zero =>
      rw [resolveAt_zero hk hl] at h
      cases h
    | succ depth =>
      rw [resolveAt_succ hk hl] at h
      obtain hfail | ⟨value, h⟩ := run_bind_eq_error h
      · obtain hinner | ⟨rfl, n, rfl, hopen⟩ :=
          expandWith_unterminated (fun _ _ _ => resolveAt_unterminated) _ _ _ hfail
        · exact hinner
        · rw [String.ofList_toList, Nat.zero_add]
          exact ⟨⟨key, hl⟩, hopen⟩
      · cases h

/-- What is reported of an unclosed reference: it is the first one in the input or in the value of
a key, and not in a part of either that is a key or a default. -/
structure Reported (lookup : String → Option String) (input text : String) (offset : Nat) :
    Prop where
  source : text = input ∨ ∃ key, lookup key = some text
  whole : ∀ {before body key default}, Delimits before body key default →
    text.toList ≠ key ∧ default ≠ some text.toList
  first : ∃ after, OpensAt text.toList offset after ∧ Unclosed after ∧
    ∀ earlier < offset, ∀ after', OpensAt text.toList earlier after' → ¬ Unclosed after'

theorem expand_reported {depth : Nat} {input : String}
    (h : (expand lookup depth input).run = some (.error (.unterminated t o))) :
    Reported lookup input t o := by
  obtain ⟨hsource, hopen⟩ : (t = input ∨ ∃ key, lookup key = some t) ∧ LeftOpen t.toList o := by
    obtain ⟨hdefined, hopen⟩ | ⟨rfl, n, rfl, hopen⟩ :=
      expandWith_unterminated (fun _ _ _ => resolveAt_unterminated) _ _ _ h
    · exact ⟨.inr hdefined, hopen⟩
    · rw [String.ofList_toList, Nat.zero_add]
      exact ⟨.inl rfl, hopen⟩
  refine ⟨hsource, fun hdelimits => ?_, hopen.opensAt⟩
  obtain ⟨hkey, hdefault⟩ := hdelimits.allClosed
  constructor
  · intro heq
    exact hkey.not_leftOpen (heq ▸ hopen)
  · intro heq
    exact (hdefault _ heq).not_leftOpen hopen

theorem expand_ne_ok {depth : Nat} {input : String} {after : List Char}
    (hopens : OpensAt input.toList o after) (hopen : Unclosed after) (out : List Char) :
    (expand lookup depth input).run ≠ some (.ok out) := by
  intro h
  obtain ⟨before, hsplit, -⟩ := hopens
  exact allClosed_of_expandWith _ _ _ h after ⟨before, hsplit.symm⟩ hopen

/-- What is reported as unclosed is the first such reference in the input or in the value of a key,
whatever defines the values. An input with an unclosed reference has no expansion. -/
theorem unterminated_reported :
    (∀ lookup depth input text offset,
      (expand lookup depth input).run = some (.error (.unterminated text offset)) →
      Reported lookup input text offset) ∧
    (∀ (lookup : Lookup) input text offset,
      substitute lookup input = .error (.unterminated text offset) →
      Reported lookup.value? input text offset) ∧
    ∀ input offset after, OpensAt input.toList offset after → Unclosed after →
      (∀ lookup depth out, (expand lookup depth input).run ≠ some (.ok out)) ∧
        ∀ (lookup : Lookup) out, substitute lookup input ≠ .ok out := by
  refine ⟨fun _ _ _ _ _ => expand_reported, ?_, ?_⟩
  · intro lookup input text offset h
    obtain ⟨r, hr, hs⟩ := substitute_spec lookup input
    rw [hs] at h
    cases r with
    | ok out => cases h
    | error e =>
      cases h
      exact expand_reported hr
  · intro input offset after hopens hopen
    refine ⟨fun _ _ => expand_ne_ok hopens hopen, ?_⟩
    intro lookup out h
    obtain ⟨r, hr, hs⟩ := substitute_spec lookup input
    rw [hs] at h
    cases r with
    | error e => cases h
    | ok out' => exact expand_ne_ok hopens hopen out' hr

/-- The value of a key has a brace that closes nothing and, after it, an open reference. -/
theorem unterminated_reported_value :
    let lookup := Lookup.ofEntries [("k", "a\x7d$\x7bb$\x7bc\x7d")]
    substitute lookup "$\x7bk:-$\x7bd\x7d\x7d" = .error (.unterminated "a\x7d$\x7bb$\x7bc\x7d" 2) ∧
      Reported lookup.value? "$\x7bk:-$\x7bd\x7d\x7d" "a\x7d$\x7bb$\x7bc\x7d" 2 := by
  intro lookup
  have herror : substitute lookup "$\x7bk:-$\x7bd\x7d\x7d" =
      .error (.unterminated "a\x7d$\x7bb$\x7bc\x7d" 2) := by
    decide +kernel
  exact ⟨herror, unterminated_reported.2.1 _ _ _ _ herror⟩

end LogConfig.Substitution
