import LogConfig.Entries
import LogConfig.Error
import LogConfig.Text.Bytes

/-
  Variable substitution. A text may hold references `${key}` and `${key:-default}`; keys and
  defaults may hold references of their own, and the value of a key is expanded again. A key met
  while it is being resolved is an error.

  `expand` is defined for every lookup and a bound on how deep the resolution of keys may nest;
  its answer is `none` when the bound is too small. A `Lookup` defines finitely many keys, and
  `expand_isSome` says that a bound of that many keys is never too small, so `substitute` is total.
-/

namespace LogConfig.Substitution

/-- Splits a text at its first `${`: what comes before it and what comes after it. -/
def breakOpen : List Char → Option (List Char × List Char)
  | '$' :: '{' :: rest => some ([], rest)
  | c :: rest => (breakOpen rest).map fun (before, after) => (c :: before, after)
  | [] => none

/-- Splits a text at the `}` that closes a reference: what comes before it and what comes after
it. The number counts the references opened since and not yet closed. -/
def breakClose : Nat → List Char → Option (List Char × List Char)
  | depth, '$' :: '{' :: rest =>
    (breakClose (depth + 1) rest).map fun (before, after) => ('$' :: '{' :: before, after)
  | 0, '}' :: rest => some ([], rest)
  | depth + 1, '}' :: rest =>
    (breakClose depth rest).map fun (before, after) => ('}' :: before, after)
  | depth, c :: rest => (breakClose depth rest).map fun (before, after) => (c :: before, after)
  | _, [] => none

/-- Splits a reference at the first `:-` outside nested references: key and default. -/
def splitDefault : Nat → List Char → List Char × Option (List Char)
  | depth, '$' :: '{' :: rest =>
    let (key, default) := splitDefault (depth + 1) rest
    ('$' :: '{' :: key, default)
  | 0, ':' :: '-' :: rest => ([], some rest)
  | depth, '}' :: rest =>
    let (key, default) := splitDefault (depth - 1) rest
    ('}' :: key, default)
  | depth, c :: rest =>
    let (key, default) := splitDefault depth rest
    (c :: key, default)
  | _, [] => ([], none)

theorem length_breakOpen {cs before after : List Char} (h : breakOpen cs = some (before, after)) :
    before.length + after.length + 2 = cs.length := by
  fun_induction breakOpen cs generalizing before after with
  | case1 rest => simp_all
  | case2 c rest _ ih =>
    obtain ⟨⟨b, a⟩, hb, he⟩ := Option.map_eq_some_iff.1 h
    obtain ⟨rfl, rfl⟩ := Prod.mk.inj he
    have := ih hb
    simp only [List.length_cons]; omega
  | case3 => simp at h

theorem length_breakClose {depth : Nat} {cs before after : List Char}
    (h : breakClose depth cs = some (before, after)) :
    before.length + after.length + 1 = cs.length := by
  fun_induction breakClose depth cs generalizing before after with
  | case1 depth rest ih =>
    obtain ⟨⟨b, a⟩, hb, he⟩ := Option.map_eq_some_iff.1 h
    obtain ⟨rfl, rfl⟩ := Prod.mk.inj he
    have := ih hb
    simp only [List.length_cons]; omega
  | case2 rest => simp_all
  | case3 depth rest ih =>
    obtain ⟨⟨b, a⟩, hb, he⟩ := Option.map_eq_some_iff.1 h
    obtain ⟨rfl, rfl⟩ := Prod.mk.inj he
    have := ih hb
    simp only [List.length_cons]; omega
  | case4 depth c rest _ _ _ ih =>
    obtain ⟨⟨b, a⟩, hb, he⟩ := Option.map_eq_some_iff.1 h
    obtain ⟨rfl, rfl⟩ := Prod.mk.inj he
    have := ih hb
    simp only [List.length_cons]; omega
  | case5 => simp at h

theorem length_splitDefault (depth : Nat) (cs : List Char) :
    (splitDefault depth cs).1.length ≤ cs.length ∧
      ∀ d, (splitDefault depth cs).2 = some d → d.length < cs.length := by
  fun_induction splitDefault depth cs with
  | case1 depth rest key default he ih =>
    simp only [he] at ih
    refine ⟨by simpa using ih.1, fun d hd => ?_⟩
    have := ih.2 d hd
    simp only [List.length_cons]; omega
  | case2 rest =>
    refine ⟨by simp, fun d hd => ?_⟩
    simp only [Option.some.injEq] at hd
    subst hd
    simp only [List.length_cons]; omega
  | case3 depth rest key default he ih =>
    simp only [he] at ih
    refine ⟨by simpa using ih.1, fun d hd => ?_⟩
    have := ih.2 d hd
    simp only [List.length_cons]; omega
  | case4 depth c rest _ _ _ key default he ih =>
    simp only [he] at ih
    refine ⟨by simpa using ih.1, fun d hd => ?_⟩
    have := ih.2 d hd
    simp only [List.length_cons]; omega
  | case5 => simp

/-- An answer that may be out of reach of the bound on nested resolutions, or an error. -/
abbrev Bounded (α : Type) := ExceptT SubstitutionError Option α

/-- The answer of a resolution that would nest deeper than the bound allows. -/
def tooDeep {α : Type} : Bounded α := ExceptT.mk none

/-- Expands the part `rest` of the text `whole` that has `offset` bytes before it. The function
`resolve` gives the expanded value of a key, or nothing for an undefined key. -/
def expandWith (resolve : String → Bounded (Option (List Char))) (whole : List Char)
    (offset : Nat) (rest : List Char) : Bounded (List Char) :=
  match _ho : breakOpen rest with
  | none => pure rest
  | some (before, after) =>
    let start := offset + Text.byteSize before
    match _hc : breakClose 0 after with
    | none => throw (.unterminated (String.ofList whole) start)
    | some (reference, remaining) =>
      do
        let keyText := (splitDefault 0 reference).1
        let key ← expandWith resolve keyText 0 keyText
        let value ← resolve (String.ofList key) >>= fun
          | some value => pure value
          | none =>
            match _hd : (splitDefault 0 reference).2 with
            | some text => expandWith resolve text 0 text
            | none => pure []
        let others ← expandWith resolve whole (start + Text.byteSize reference + 3) remaining
        pure (before ++ value ++ others)
termination_by rest.length
decreasing_by
  all_goals
    have h1 := length_breakOpen _ho
    have h2 := length_breakClose _hc
    obtain ⟨h3, h4⟩ := length_splitDefault 0 reference
  · omega
  · have := h4 _ _hd; omega
  · omega

/-- The expanded value of a key, where `resolving` are the keys whose values are being expanded,
outermost first, and at most `depth` more may nest. -/
def resolveAt (lookup : String → Option String) :
    Nat → List String → String → Bounded (Option (List Char))
  | depth, resolving, key =>
    if key ∈ resolving then throw (.circle (resolving ++ [key]))
    else match lookup key with
      | none => pure none
      | some raw =>
        match depth with
        | 0 => tooDeep
        | depth + 1 => do
          let value ← expandWith (resolveAt lookup depth (resolving ++ [key])) raw.toList 0 raw.toList
          pure (some value)

/-- Expands a text with at most `depth` nested resolutions. -/
def expand (lookup : String → Option String) (depth : Nat) (text : String) :
    Bounded (List Char) :=
  expandWith (resolveAt lookup depth []) text.toList 0 text.toList

/-- A source of values that defines finitely many keys. -/
structure Lookup where
  value? : String → Option String
  keys : List String
  complete : ∀ key, value? key ≠ none → key ∈ keys

/-- The lookup of a table, in which the first entry of a key counts. -/
def Lookup.ofEntries (entries : List (String × String)) : Lookup where
  value? key := Entries.find? key entries
  keys := Entries.keys entries
  complete key h := by
    rw [ne_eq, Entries.find?_eq_none_iff] at h
    exact Decidable.not_not.1 h

theorem isSome_bind {α β : Type} {x : Bounded α} {f : α → Bounded β} (hx : x.run.isSome)
    (hf : ∀ a, (f a).run.isSome) : (x >>= f).run.isSome := by
  obtain ⟨r, hr⟩ := Option.isSome_iff_exists.1 hx
  have hx : x = ExceptT.mk (some r) := hr
  subst hx
  cases r with
  | error e => rfl
  | ok a => exact hf a

theorem expandWith_isSome {resolve : String → Bounded (Option (List Char))}
    (h : ∀ key, (resolve key).run.isSome) (whole : List Char) (offset : Nat)
    (rest : List Char) : (expandWith resolve whole offset rest).run.isSome := by
  fun_induction expandWith resolve whole offset rest with
  | case1 => rfl
  | case2 => rfl
  | case3 whole offset rest before after _ start reference remaining _ keyText ihKey ihDefault
      ihRest =>
    refine isSome_bind ihKey fun key => isSome_bind (isSome_bind (h _) fun value => ?_) fun value =>
      isSome_bind ihRest fun others => rfl
    cases value with
    | some v => rfl
    | none =>
      dsimp only
      split
      · next text hd => exact ihDefault text hd
      · rfl

/-- The keys being resolved are distinct and defined, so they are no more than the keys there are. -/
theorem resolveAt_isSome (lookup : Lookup) (depth : Nat) (resolving : List String) (key : String)
    (hn : resolving.Nodup) (hd : ∀ k ∈ resolving, k ∈ lookup.keys)
    (hl : lookup.keys.length ≤ depth + resolving.length) :
    (resolveAt lookup.value? depth resolving key).run.isSome := by
  induction depth generalizing resolving key with
  | zero =>
    rw [resolveAt]
    split
    · rfl
    · next hk =>
      split
      · rfl
      · next raw hr =>
        have hmem := lookup.complete key (by simp [hr])
        have hlen : (key :: resolving).length ≤ lookup.keys.length :=
          (List.nodup_cons.2 ⟨hk, hn⟩).length_le_of_subset (List.cons_subset.2 ⟨hmem, hd⟩)
        rw [List.length_cons] at hlen
        omega
  | succ depth ih =>
    rw [resolveAt]
    split
    · rfl
    · next hk =>
      split
      · rfl
      · next raw hr =>
        have hmem := lookup.complete key (by simp [hr])
        refine isSome_bind (expandWith_isSome (fun key' => ih _ key' ?_ ?_ ?_) _ _ _) fun _ => rfl
        · refine List.nodup_append.2 ⟨hn, by simp, ?_⟩
          intro a ha b hb
          simp only [List.mem_singleton] at hb
          subst hb
          exact fun he => hk (by rw [← he]; exact ha)
        · intro k hk'
          rcases List.mem_append.1 hk' with hk' | hk'
          · exact hd k hk'
          · simp only [List.mem_singleton] at hk'
            subst hk'
            exact hmem
        · simp only [List.length_append, List.length_cons, List.length_nil]; omega

/-- A bound of as many resolutions as there are keys is always enough. -/
theorem expand_isSome (lookup : Lookup) (text : String) :
    (expand lookup.value? lookup.keys.length text).run.isSome :=
  expandWith_isSome (fun key => resolveAt_isSome lookup _ [] key (by simp) (by simp) (by simp)) _ _ _

/-- The text with every reference expanded. Undefined keys without a default expand to nothing. -/
def substitute (lookup : Lookup) (text : String) : Except SubstitutionError String :=
  ((expand lookup.value? lookup.keys.length text).run.get (expand_isSome lookup text)).map
    String.ofList

end LogConfig.Substitution
