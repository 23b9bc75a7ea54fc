import LogConfig.Substitution

/-
  Where a reference begins and ends. The places are given by counting: `opens` the references a
  text opens and `closes` its closing braces. A reference ends at the first brace before which all
  is closed that was opened since, and its key at the first `:-` before which all is closed.

  The scanners count down instead, each in its own way. That they find exactly these places is
  `breakOpen_eq_some_iff`, `breakClose_eq_some_iff` and `splitDefault_eq_iff`. The last scanner
  does not count below zero, so it agrees only on texts in which every brace closes something;
  the body of a reference is such a text.
-/

namespace LogConfig.Substitution

/-! ### Counting -/

/-- How many references a text opens. -/
def opens : List Char → Nat
  | '$' :: '{' :: rest => opens rest + 1
  | _ :: rest => opens rest
  | [] => 0

/-- How many closing braces a text has. -/
def closes (cs : List Char) : Nat := cs.count '}'

@[simp] theorem opens_nil : opens [] = 0 := by rw [opens]

@[simp] theorem closes_nil : closes [] = 0 := rfl

@[simp] theorem opens_open (rest : List Char) : opens ('$' :: '{' :: rest) = opens rest + 1 := by
  rw [opens]

theorem opens_cons {c : Char} {rest : List Char} (h : c = '$' → rest.head? ≠ some '{') :
    opens (c :: rest) = opens rest := by
  rw [opens]
  intro rest' hc hrest
  refine h hc ?_
  rw [hrest, List.head?_cons]

@[simp] theorem closes_close (rest : List Char) : closes ('}' :: rest) = closes rest + 1 :=
  List.count_cons_self

theorem closes_cons {c : Char} {rest : List Char} (h : c ≠ '}') :
    closes (c :: rest) = closes rest := List.count_cons_of_ne h

theorem closes_append (cs ds : List Char) : closes (cs ++ ds) = closes cs + closes ds :=
  List.count_append

/-- A text that does not begin with a brace adds the references it opens. -/
theorem opens_append {ds : List Char} (h : ds.head? ≠ some '{') (cs : List Char) :
    opens (cs ++ ds) = opens cs + opens ds := by
  fun_induction opens cs with
  | case1 rest ih =>
    rw [List.cons_append, List.cons_append, opens_open, ih]
    omega
  | case2 c rest hne ih =>
    rw [List.cons_append, opens_cons, ih]
    intro hc hhead
    cases rest with
    | nil => exact h hhead
    | cons c' rest' =>
      rw [List.cons_append, List.head?_cons, Option.some.injEq] at hhead
      exact hne rest' hc (by rw [hhead])
  | case3 => simp

/-! ### Balanced texts -/

/-- Closes what it opens and `depth` references more, with a brace for each and none too many. -/
structure Balanced (depth : Nat) (cs : List Char) : Prop where
  level : opens cs + depth = closes cs
  inner : ∀ p, p ++ ['}'] <+: cs → closes p < opens p + depth

theorem prefix_cons_iff {c d : Char} {p rest : List Char} :
    p ++ [d] <+: c :: rest ↔ p = [] ∧ d = c ∨ ∃ q, p = c :: q ∧ q ++ [d] <+: rest := by
  cases p with
  | nil => simp
  | cons c' q =>
    rw [List.cons_append, List.cons_prefix_cons]
    constructor
    · rintro ⟨rfl, h⟩
      exact .inr ⟨q, rfl, h⟩
    · rintro (⟨h, -⟩ | ⟨q', h, hq⟩)
      · cases h
      · cases h
        exact ⟨rfl, hq⟩

theorem head?_of_prefix {c : Char} {p ds rest : List Char} (h : p ++ ds <+: rest)
    (hc : rest.head? ≠ some c) : p.head? ≠ some c := by
  cases p with
  | nil => simp
  | cons c' q =>
    obtain ⟨t, rfl⟩ := h
    exact hc

theorem balanced_nil {depth : Nat} : Balanced depth [] ↔ depth = 0 := by
  constructor
  · intro h
    have := h.level
    simpa using this
  · rintro rfl
    exact ⟨rfl, fun p hp => by simp at hp⟩

theorem balanced_open {depth : Nat} {rest : List Char} :
    Balanced depth ('$' :: '{' :: rest) ↔ Balanced (depth + 1) rest := by
  have counts : closes ('$' :: '{' :: rest) = closes rest := by
    rw [closes_cons (by decide), closes_cons (by decide)]
  constructor
  · intro h
    refine ⟨?_, fun p hp => ?_⟩
    · have := h.level
      rw [opens_open, counts] at this
      omega
    · have := h.inner ('$' :: '{' :: p) (by simpa using hp)
      rw [opens_open, closes_cons (by decide), closes_cons (by decide)] at this
      omega
  · intro h
    refine ⟨?_, fun p hp => ?_⟩
    · have := h.level
      rw [opens_open, counts]
      omega
    · rcases prefix_cons_iff.1 hp with ⟨-, hc⟩ | ⟨q, rfl, hq⟩
      · exact absurd hc (by decide)
      · rcases prefix_cons_iff.1 hq with ⟨-, hc⟩ | ⟨q', rfl, hq'⟩
        · exact absurd hc (by decide)
        · have := h.inner q' hq'
          rw [opens_open, closes_cons (by decide), closes_cons (by decide)]
          omega

theorem not_balanced_close {rest : List Char} : ¬ Balanced 0 ('}' :: rest) := by
  intro h
  have := h.inner [] (by simp)
  simp at this

theorem balanced_close {depth : Nat} {rest : List Char} :
    Balanced (depth + 1) ('}' :: rest) ↔ Balanced depth rest := by
  have opened : ∀ cs, opens ('}' :: cs) = opens cs := fun cs =>
    opens_cons fun hc => absurd hc (by decide)
  constructor
  · intro h
    refine ⟨?_, fun p hp => ?_⟩
    · have := h.level
      rw [opened, closes_close] at this
      omega
    · have := h.inner ('}' :: p) (by simpa using hp)
      rw [opened, closes_close] at this
      omega
  · intro h
    refine ⟨?_, fun p hp => ?_⟩
    · have := h.level
      rw [opened, closes_close]
      omega
    · rcases prefix_cons_iff.1 hp with ⟨rfl, -⟩ | ⟨q, rfl, hq⟩
      · simp
      · have := h.inner q hq
        rw [opened, closes_close]
        omega

theorem balanced_other {depth : Nat} {c : Char} {rest : List Char} (hc : c ≠ '}')
    (ho : c = '$' → rest.head? ≠ some '{') :
    Balanced depth (c :: rest) ↔ Balanced depth rest := by
  constructor
  · intro h
    refine ⟨?_, fun p hp => ?_⟩
    · have := h.level
      rwa [opens_cons ho, closes_cons hc] at this
    · have := h.inner (c :: p) (by simpa using hp)
      rwa [opens_cons fun hd => head?_of_prefix hp (ho hd), closes_cons hc] at this
  · intro h
    refine ⟨?_, fun p hp => ?_⟩
    · have := h.level
      rwa [opens_cons ho, closes_cons hc]
    · rcases prefix_cons_iff.1 hp with ⟨-, hd⟩ | ⟨q, rfl, hq⟩
      · exact absurd hd.symm hc
      · have := h.inner q hq
        rwa [opens_cons fun hd => head?_of_prefix hq (ho hd), closes_cons hc]

/-! ### The scanners -/

section OtherCharacters

variable {c : Char} {rest : List Char}

/-- A part of a text before which no dollar sign opens a reference does not begin with a brace. -/
theorem head?_ne_of_not_open (h : ∀ rest', c = '$' → rest = '{' :: rest' → False)
    {b r : List Char} (hrest : rest = b ++ r) (hc : c = '$') : b.head? ≠ some '{' := by
  intro hhead
  obtain ⟨b', rfl⟩ := List.head?_eq_some_iff.1 hhead
  exact h (b' ++ r) hc hrest

theorem ne_close_of_cases {depth : Nat} (hzero : depth = 0 → c = '}' → False)
    (hsucc : ∀ d, depth = d + 1 → c = '}' → False) : c ≠ '}' := by
  intro hc
  cases depth with
  | zero => exact hzero rfl hc
  | succ depth => exact hsucc depth rfl hc

end OtherCharacters

/-- A text is split before the first reference it opens. -/
theorem breakOpen_eq_some_iff {cs before after : List Char} :
    breakOpen cs = some (before, after) ↔
      cs = before ++ '$' :: '{' :: after ∧ opens before = 0 := by
  fun_induction breakOpen cs generalizing before after with
  | case1 rest =>
    constructor
    · intro h
      cases h
      exact ⟨rfl, opens_nil⟩
    · rintro ⟨hcs, hb⟩
      rcases before with _ | ⟨c, _ | ⟨c', before⟩⟩
      · cases hcs
        rfl
      · cases hcs
      · cases hcs
        rw [opens_open] at hb
        omega
  | case2 c rest hne ih =>
    rw [Option.map_eq_some_iff]
    constructor
    · rintro ⟨⟨b, a⟩, hba, he⟩
      cases he
      obtain ⟨hrest, hb⟩ := ih.1 hba
      refine ⟨by rw [hrest, List.cons_append], ?_⟩
      rwa [opens_cons (head?_ne_of_not_open hne hrest)]
    · rintro ⟨hcs, hb⟩
      cases before with
      | nil =>
        cases hcs
        exact absurd rfl (hne after rfl)
      | cons c' b =>
        cases hcs
        rw [opens_cons (head?_ne_of_not_open hne rfl)] at hb
        exact ⟨(b, after), ih.2 ⟨rfl, hb⟩, rfl⟩
  | case3 => simp

/-- A text is not split when it opens no reference. -/
theorem breakOpen_eq_none_iff {cs : List Char} : breakOpen cs = none ↔ opens cs = 0 := by
  fun_induction breakOpen cs with
  | case1 rest => simp
  | case2 c rest hne ih =>
    rw [Option.map_eq_none_iff, ih, opens]
    exact hne
  | case3 => simp

/-- A text is split at the first brace before which everything is closed. -/
theorem breakClose_eq_some_iff {depth : Nat} {cs body rest : List Char} :
    breakClose depth cs = some (body, rest) ↔ cs = body ++ '}' :: rest ∧ Balanced depth body := by
  fun_induction breakClose depth cs generalizing body rest with
  | case1 depth cs ih =>
    rw [Option.map_eq_some_iff]
    constructor
    · rintro ⟨⟨b, r⟩, hbr, he⟩
      cases he
      obtain ⟨rfl, hb⟩ := ih.1 hbr
      exact ⟨rfl, balanced_open.2 hb⟩
    · rintro ⟨hcs, hb⟩
      rcases body with _ | ⟨c, _ | ⟨c', b⟩⟩
      · cases hcs
      · cases hcs
      · cases hcs
        exact ⟨(b, rest), ih.2 ⟨rfl, balanced_open.1 hb⟩, rfl⟩
  | case2 cs =>
    constructor
    · intro h
      cases h
      exact ⟨rfl, balanced_nil.2 rfl⟩
    · rintro ⟨hcs, hb⟩
      cases body with
      | nil =>
        cases hcs
        rfl
      | cons c b =>
        cases hcs
        exact absurd hb not_balanced_close
  | case3 depth cs ih =>
    rw [Option.map_eq_some_iff]
    constructor
    · rintro ⟨⟨b, r⟩, hbr, he⟩
      cases he
      obtain ⟨rfl, hb⟩ := ih.1 hbr
      exact ⟨rfl, balanced_close.2 hb⟩
    · rintro ⟨hcs, hb⟩
      cases body with
      | nil => exact absurd (balanced_nil.1 hb) (by omega)
      | cons c b =>
        cases hcs
        exact ⟨(b, rest), ih.2 ⟨rfl, balanced_close.1 hb⟩, rfl⟩
  | case4 depth c cs hopen hzero hsucc ih =>
    have hc : c ≠ '}' := ne_close_of_cases hzero hsucc
    rw [Option.map_eq_some_iff]
    constructor
    · rintro ⟨⟨b, r⟩, hbr, he⟩
      cases he
      obtain ⟨hcs, hb⟩ := ih.1 hbr
      exact ⟨by rw [hcs, List.cons_append],
        (balanced_other hc (head?_ne_of_not_open hopen hcs)).2 hb⟩
    · rintro ⟨hcs, hb⟩
      cases body with
      | nil =>
        cases hcs
        exact absurd rfl hc
      | cons c' b =>
        cases hcs
        exact ⟨(b, rest),
          ih.2 ⟨rfl, (balanced_other hc (head?_ne_of_not_open hopen rfl)).1 hb⟩, rfl⟩
  | case5 depth => simp

/-! ### Key and default -/

/-- What follows the key in the body of a reference. -/
def defaultTail : Option (List Char) → List Char
  | none => []
  | some default => ':' :: '-' :: default

/-- No `:-` begins among the first `n` places of a text where all is closed that it has opened
and `depth` references more. -/
def Quiet (depth n : Nat) (cs : List Char) : Prop :=
  ∀ p, p.length < n → p ++ [':', '-'] <+: cs → opens p + depth ≠ closes p

/-- A text is a key and its default, the key ending at the first `:-` where all is closed. -/
structure SplitsAt (depth : Nat) (cs key : List Char) (default : Option (List Char)) : Prop where
  whole : cs = key ++ defaultTail default
  level : default ≠ none → opens key + depth = closes key
  quiet : Quiet depth key.length cs

theorem marked_prefix_cons {c : Char} {p rest : List Char} (h : p ++ [':', '-'] <+: c :: rest) :
    p = [] ∧ c = ':' ∧ (∃ rest', rest = '-' :: rest') ∨
      ∃ q, p = c :: q ∧ q ++ [':', '-'] <+: rest := by
  cases p with
  | nil =>
    obtain ⟨t, ht⟩ := h
    cases ht
    exact .inl ⟨rfl, rfl, t, rfl⟩
  | cons c' q =>
    rw [List.cons_append, List.cons_prefix_cons] at h
    exact .inr ⟨q, by rw [h.1], h.2⟩

theorem Quiet.open {depth n : Nat} {rest : List Char} (h : Quiet (depth + 1) n rest) :
    Quiet depth (n + 2) ('$' :: '{' :: rest) := by
  intro p hn hp
  rcases marked_prefix_cons hp with ⟨-, hc, -⟩ | ⟨q, rfl, hq⟩
  · exact absurd hc (by decide)
  rcases marked_prefix_cons hq with ⟨-, hc, -⟩ | ⟨q', rfl, hq'⟩
  · exact absurd hc (by decide)
  have := h q' (by simpa using hn) hq'
  rw [opens_open, closes_cons (by decide), closes_cons (by decide)]
  omega

theorem Quiet.close {depth n : Nat} {rest : List Char} (h : Quiet depth n rest) :
    Quiet (depth + 1) (n + 1) ('}' :: rest) := by
  intro p hn hp
  rcases marked_prefix_cons hp with ⟨-, hc, -⟩ | ⟨q, rfl, hq⟩
  · exact absurd hc (by decide)
  have := h q (by simpa using hn) hq
  rw [opens_cons fun hc => absurd hc (by decide), closes_close]
  omega

theorem Quiet.other {depth n : Nat} {c : Char} {rest : List Char} (hc : c ≠ '}')
    (ho : c = '$' → rest.head? ≠ some '{')
    (hm : depth = 0 → c = ':' → ∀ rest', rest ≠ '-' :: rest') (h : Quiet depth n rest) :
    Quiet depth (n + 1) (c :: rest) := by
  intro p hn hp
  rcases marked_prefix_cons hp with ⟨rfl, hd, rest', hr⟩ | ⟨q, rfl, hq⟩
  · intro hl
    rw [opens_nil, closes_nil] at hl
    exact hm (by omega) hd rest' hr
  · have := h q (by simpa using hn) hq
    rwa [opens_cons fun hd => head?_of_prefix hq (ho hd), closes_cons hc]

/-- In a text in which every brace closes something, the scanner splits at the right place. -/
theorem splitDefault_splitsAt {depth : Nat} {cs : List Char}
    (hi : ∀ p, p ++ ['}'] <+: cs → closes p < opens p + depth) :
    SplitsAt depth cs (splitDefault depth cs).1 (splitDefault depth cs).2 := by
  fun_induction splitDefault depth cs with
  | case1 depth rest key default he ih =>
    rw [he] at ih
    have := ih fun p hp => by
      have := hi ('$' :: '{' :: p) (by simpa using hp)
      rw [opens_open, closes_cons (by decide), closes_cons (by decide)] at this
      omega
    refine ⟨by rw [this.whole]; rfl, fun hd => ?_, this.quiet.open⟩
    have level : opens key + (depth + 1) = closes key := this.level hd
    rw [opens_open, closes_cons (by decide), closes_cons (by decide)]
    omega
  | case2 rest => exact ⟨rfl, fun _ => rfl, fun p hn => absurd hn (by simp)⟩
  | case3 depth rest key default he ih =>
    rw [he] at ih
    obtain ⟨depth, rfl⟩ : ∃ d, depth = d + 1 := by
      have := hi [] (by simp)
      rw [opens_nil, closes_nil] at this
      exact ⟨depth - 1, by omega⟩
    have := ih fun p hp => by
      have := hi ('}' :: p) (by simpa using hp)
      rw [opens_cons fun hc => absurd hc (by decide), closes_close] at this
      omega
    refine ⟨by rw [this.whole]; rfl, fun hd => ?_, this.quiet.close⟩
    have level : opens key + depth = closes key := this.level hd
    rw [opens_cons fun hc => absurd hc (by decide), closes_close]
    omega
  | case4 depth c rest hopen hmark hclose key default he ih =>
    rw [he] at ih
    have ho : c = '$' → rest.head? ≠ some '{' :=
      head?_ne_of_not_open hopen (List.append_nil rest).symm
    have := ih fun p hp => by
      have := hi (c :: p) (by simpa using hp)
      rwa [opens_cons fun hd => head?_of_prefix hp (ho hd), closes_cons hclose] at this
    refine ⟨by rw [this.whole]; rfl, fun hd => ?_,
      this.quiet.other hclose ho fun hd hm r => hmark r hd hm⟩
    have level := this.level hd
    rwa [opens_cons (head?_ne_of_not_open hopen this.whole), closes_cons hclose]
  | case5 => exact ⟨rfl, fun h => absurd rfl h, fun p hn => absurd hn (by simp)⟩

theorem SplitsAt.length_le {depth : Nat} {cs key key' : List Char}
    {default default' : Option (List Char)} (h : SplitsAt depth cs key default)
    (h' : SplitsAt depth cs key' default') : key'.length ≤ key.length := by
  refine Nat.le_of_not_lt fun hlt => ?_
  cases default with
  | none =>
    have hw := congrArg List.length (h.whole.symm.trans h'.whole)
    simp only [defaultTail, List.append_nil, List.length_append] at hw
    omega
  | some default =>
    refine h'.quiet key (by omega) ⟨default, ?_⟩ (h.level (by simp))
    rw [h.whole, List.append_assoc]
    rfl

/-- There is only one way to split a text. -/
theorem SplitsAt.unique {depth : Nat} {cs key key' : List Char}
    {default default' : Option (List Char)} (h : SplitsAt depth cs key default)
    (h' : SplitsAt depth cs key' default') : key = key' ∧ default = default' := by
  have hl : key.length = key'.length := Nat.le_antisymm (h'.length_le h) (h.length_le h')
  obtain ⟨hk, ht⟩ := List.append_inj (h.whole.symm.trans h'.whole) hl
  refine ⟨hk, ?_⟩
  cases default <;> cases default' <;> simp_all [defaultTail]

theorem splitDefault_eq_iff {body key : List Char} {default : Option (List Char)}
    (h : Balanced 0 body) : splitDefault 0 body = (key, default) ↔ SplitsAt 0 body key default := by
  have hs := splitDefault_splitsAt h.inner
  constructor
  · intro he
    rw [he] at hs
    exact hs
  · intro h'
    obtain ⟨hk, hd⟩ := hs.unique h'
    exact Prod.ext hk hd

end LogConfig.Substitution
