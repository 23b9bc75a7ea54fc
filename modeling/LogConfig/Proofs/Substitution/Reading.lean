import LogConfig.Proofs.Substitution.Scanning

/-
  Texts as templates: literal pieces and references, whose keys and defaults are templates again.
  A template stands for a text (`Template.text`) and is well-formed when its pieces end where the
  counts of `Scanning` say. A text has at most one reading (`Reads.unique`), and a text in which
  all is closed has one (`exists_reads`).
-/

namespace LogConfig.Substitution

inductive Template where
  /-- A text that opens no reference. -/
  | literal (text : List Char)
  /-- A literal piece, a reference without a default, and what follows it. -/
  | reference (before : List Char) (key rest : Template)
  /-- A literal piece, a reference with a default, and what follows it. -/
  | defaulted (before : List Char) (key default rest : Template)

/-- A literal piece and the body of the reference after it end at the right places, and so does
the key in the body. -/
structure Delimits (before body key : List Char) (default : Option (List Char)) : Prop where
  plain : opens before = 0
  balanced : Balanced 0 body
  splits : SplitsAt 0 body key default

/-- A literal piece, a reference with this body, and what follows it. -/
def enclosed (before body rest : List Char) : List Char :=
  before ++ '$' :: '{' :: (body ++ '}' :: rest)

namespace Template

/-- The text that a template stands for. -/
def text : Template → List Char
  | literal text => text
  | reference before key rest => enclosed before key.text rest.text
  | defaulted before key default rest =>
    enclosed before (key.text ++ ':' :: '-' :: default.text) rest.text

/-- All pieces of a template end where its text says. -/
def WellFormed : Template → Prop
  | literal text => opens text = 0
  | reference before key rest =>
    Delimits before key.text key.text none ∧ key.WellFormed ∧ rest.WellFormed
  | defaulted before key default rest =>
    Delimits before (key.text ++ ':' :: '-' :: default.text) key.text (some default.text) ∧
      key.WellFormed ∧ default.WellFormed ∧ rest.WellFormed

end Template

/-- A template is a reading of a text. -/
structure Reads (cs : List Char) (t : Template) : Prop where
  text_eq : t.text = cs
  wellFormed : t.WellFormed

/-! ### Delimited pieces and the scanners -/

section Delimits

variable {before body key rest after : List Char} {default : Option (List Char)}

theorem Delimits.breakOpen_eq (h : Delimits before body key default) (rest : List Char) :
    breakOpen (enclosed before body rest) = some (before, body ++ '}' :: rest) :=
  breakOpen_eq_some_iff.2 ⟨rfl, h.plain⟩

theorem Delimits.breakClose_eq (h : Delimits before body key default) (rest : List Char) :
    breakClose 0 (body ++ '}' :: rest) = some (body, rest) :=
  breakClose_eq_some_iff.2 ⟨rfl, h.balanced⟩

theorem Delimits.splitDefault_eq (h : Delimits before body key default) :
    splitDefault 0 body = (key, default) :=
  (splitDefault_eq_iff h.balanced).2 h.splits

/-- What the scanners cut out is delimited. -/
theorem delimits_of_scan {cs : List Char} (ho : breakOpen cs = some (before, after))
    (hc : breakClose 0 after = some (body, rest)) :
    cs = enclosed before body rest ∧
      Delimits before body (splitDefault 0 body).1 (splitDefault 0 body).2 := by
  obtain ⟨rfl, hplain⟩ := breakOpen_eq_some_iff.1 ho
  obtain ⟨rfl, hbody⟩ := breakClose_eq_some_iff.1 hc
  exact ⟨rfl, hplain, hbody, (splitDefault_eq_iff hbody).1 rfl⟩

/-- A piece can be delimited in one way only. -/
theorem Delimits.unique {before' body' key' rest' : List Char} {default' : Option (List Char)}
    (h : Delimits before body key default) (h' : Delimits before' body' key' default')
    (he : enclosed before body rest = enclosed before' body' rest') :
    before = before' ∧ key = key' ∧ default = default' ∧ rest = rest' := by
  have hopen := h.breakOpen_eq rest
  rw [he, h'.breakOpen_eq rest', Option.some.injEq, Prod.mk.injEq] at hopen
  obtain ⟨rfl, hafter⟩ := hopen
  have hclose := h.breakClose_eq rest
  rw [← hafter, h'.breakClose_eq rest', Option.some.injEq, Prod.mk.injEq] at hclose
  obtain ⟨rfl, rfl⟩ := hclose
  have hsplit := h.splitDefault_eq.symm.trans h'.splitDefault_eq
  rw [Prod.mk.injEq] at hsplit
  exact ⟨rfl, hsplit.1, hsplit.2, rfl⟩

theorem Delimits.ne_literal {text : List Char} (h : Delimits before body key default)
    (ht : opens text = 0) : text ≠ enclosed before body rest := by
  rintro rfl
  have := breakOpen_eq_none_iff.2 ht
  rw [h.breakOpen_eq rest] at this
  cases this

end Delimits

/-! ### One reading -/

theorem Template.text_injective {t t' : Template} (h : t.WellFormed) (h' : t'.WellFormed)
    (he : t.text = t'.text) : t = t' := by
  induction t generalizing t' with
  | literal text =>
    cases t' with
    | literal text' => exact congrArg literal he
    | reference before' key' rest' => exact absurd he (h'.1.ne_literal h)
    | defaulted before' key' default' rest' => exact absurd he (h'.1.ne_literal h)
  | reference before key rest ihKey ihRest =>
    obtain ⟨hd, hk, hr⟩ := h
    cases t' with
    | literal text' => exact absurd he.symm (hd.ne_literal h')
    | reference before' key' rest' =>
      obtain ⟨hd', hk', hr'⟩ := h'
      obtain ⟨rfl, hkey, -, hrest⟩ := hd.unique hd' he
      rw [ihKey hk hk' hkey, ihRest hr hr' hrest]
    | defaulted before' key' default' rest' =>
      obtain ⟨-, -, hdefault, -⟩ := hd.unique h'.1 he
      cases hdefault
  | defaulted before key default rest ihKey ihDefault ihRest =>
    obtain ⟨hd, hk, hf, hr⟩ := h
    cases t' with
    | literal text' => exact absurd he.symm (hd.ne_literal h')
    | reference before' key' rest' =>
      obtain ⟨-, -, hdefault, -⟩ := hd.unique h'.1 he
      cases hdefault
    | defaulted before' key' default' rest' =>
      obtain ⟨hd', hk', hf', hr'⟩ := h'
      obtain ⟨rfl, hkey, hdefault, hrest⟩ := hd.unique hd' he
      rw [ihKey hk hk' hkey, ihDefault hf hf' (Option.some.inj hdefault), ihRest hr hr' hrest]

/-- A text has at most one reading. -/
theorem Reads.unique {cs : List Char} {t t' : Template} (h : Reads cs t) (h' : Reads cs t') :
    t = t' :=
  Template.text_injective h.wellFormed h'.wellFormed (h.text_eq.trans h'.text_eq.symm)

/-! ### Readings of closed texts -/

theorem Reads.literal {cs : List Char} (h : opens cs = 0) : Reads cs (.literal cs) := ⟨rfl, h⟩

theorem Reads.reference {before body rest : List Char} {k r : Template}
    (h : Delimits before body body none) (hk : Reads body k) (hr : Reads rest r) :
    Reads (enclosed before body rest) (.reference before k r) := by
  obtain ⟨rfl, hk⟩ := hk
  obtain ⟨rfl, hr⟩ := hr
  exact ⟨rfl, h, hk, hr⟩

theorem Reads.defaulted {before body key default rest : List Char} {k d r : Template}
    (h : Delimits before body key (some default)) (hk : Reads key k) (hd : Reads default d)
    (hr : Reads rest r) : Reads (enclosed before body rest) (.defaulted before k d r) := by
  obtain ⟨rfl, hk⟩ := hk
  obtain ⟨rfl, hd⟩ := hd
  obtain ⟨rfl, hr⟩ := hr
  obtain rfl := h.splits.whole
  exact ⟨rfl, h, hk, hd, hr⟩

/-- A text that closes more than it opens has the brace that closes a reference around it. -/
theorem exists_breakClose (depth extra : Nat) {cs : List Char}
    (h : Balanced (depth + 1 + extra) cs) :
    ∃ body rest, breakClose depth cs = some (body, rest) ∧ Balanced extra rest := by
  fun_induction breakClose depth cs with
  | case1 depth cs ih =>
    have : depth + 1 + extra + 1 = depth + 1 + 1 + extra := by omega
    obtain ⟨b, r, hbr, hr⟩ := ih (this ▸ balanced_open.1 h)
    exact ⟨_, r, by rw [hbr]; rfl, hr⟩
  | case2 cs =>
    rw [Nat.zero_add, Nat.add_comm] at h
    exact ⟨[], cs, rfl, balanced_close.1 h⟩
  | case3 depth cs ih =>
    have : depth + 1 + 1 + extra = depth + 1 + extra + 1 := by omega
    obtain ⟨b, r, hbr, hr⟩ := ih (balanced_close.1 (this ▸ h))
    exact ⟨_, r, by rw [hbr]; rfl, hr⟩
  | case4 depth c cs hopen hzero hsucc ih =>
    have hc : c ≠ '}' := ne_close_of_cases hzero hsucc
    have ho : c = '$' → cs.head? ≠ some '{' :=
      head?_ne_of_not_open hopen (List.append_nil cs).symm
    obtain ⟨b, r, hbr, hr⟩ := ih ((balanced_other hc ho).1 h)
    exact ⟨_, r, by rw [hbr]; rfl, hr⟩
  | case5 depth => exact absurd (balanced_nil.1 h) (by omega)

/-- After the literal piece of a closed text one reference is open. -/
theorem Balanced.after_open {before after : List Char} (hb : opens before = 0)
    (h : Balanced 0 (before ++ '$' :: '{' :: after)) : Balanced 1 after := by
  induction before with
  | nil => exact balanced_open.1 h
  | cons c before ih =>
    by_cases hc : c = '}'
    · rw [hc] at h
      exact absurd h not_balanced_close
    have ho : c = '$' → before.head? ≠ some '{' := by
      rintro rfl hhead
      obtain ⟨rest, rfl⟩ := List.head?_eq_some_iff.1 hhead
      rw [opens_open] at hb
      omega
    rw [opens_cons ho] at hb
    refine ih hb ((balanced_other hc fun hd => ?_).1 h)
    cases before with
    | nil => simp
    | cons d before => exact ho hd

/-- The key and the default of a closed body are closed. -/
theorem Balanced.split {body key default : List Char} (h : Balanced 0 body)
    (hs : SplitsAt 0 body key (some default)) : Balanced 0 key ∧ Balanced 0 default := by
  obtain ⟨hw, hl, -⟩ := hs
  have level := hl (by simp)
  have counts : ∀ ds : List Char, opens (key ++ ':' :: '-' :: ds) = opens key + opens ds ∧
      closes (key ++ ':' :: '-' :: ds) = closes key + closes ds := by
    intro ds
    rw [opens_append (by simp), closes_append, opens_cons fun hc => absurd hc (by decide),
      opens_cons fun hc => absurd hc (by decide), closes_cons (by decide), closes_cons (by decide)]
    exact ⟨rfl, rfl⟩
  subst hw
  refine ⟨⟨level, fun p hp => h.inner p (hp.trans (List.prefix_append ..))⟩, ?_, fun p hp => ?_⟩
  · have := h.level
    rw [defaultTail, (counts default).1, (counts default).2] at this
    omega
  · have := h.inner (key ++ ':' :: '-' :: p) (by
      rw [List.append_assoc, defaultTail]
      exact (List.prefix_append_right_inj key).2 (by simpa using hp))
    rw [(counts p).1, (counts p).2] at this
    omega

/-- A text in which all is closed has a reading. -/
theorem exists_reads {cs : List Char} (h : Balanced 0 cs) : ∃ t, Reads cs t := by
  induction hn : cs.length using Nat.strongRecOn generalizing cs with
  | _ n ih =>
    subst hn
    rcases ho : breakOpen cs with _ | ⟨before, after⟩
    · exact ⟨_, .literal (breakOpen_eq_none_iff.1 ho)⟩
    have h1 := length_breakOpen ho
    obtain ⟨hcs, hplain⟩ := breakOpen_eq_some_iff.1 ho
    have hafter : Balanced 1 after := Balanced.after_open hplain (hcs ▸ h)
    obtain ⟨body, rest, hc, hrest⟩ := exists_breakClose 0 0 hafter
    have h2 := length_breakClose hc
    obtain ⟨h3, h4⟩ := length_splitDefault 0 body
    obtain ⟨rfl, hd⟩ := delimits_of_scan ho hc
    obtain ⟨r, hr⟩ := ih _ (by omega) hrest rfl
    cases hdefault : (splitDefault 0 body).2 with
    | none =>
      rw [hdefault] at hd
      have hkey : body = (splitDefault 0 body).1 := by
        simpa [defaultTail] using hd.splits.whole
      rw [← hkey] at hd
      obtain ⟨k, hk⟩ := ih _ (by omega) hd.balanced rfl
      exact ⟨_, .reference hd hk hr⟩
    | some default =>
      rw [hdefault] at hd
      have := h4 default hdefault
      obtain ⟨hbk, hbd⟩ := hd.balanced.split hd.splits
      obtain ⟨k, hk⟩ := ih _ (by omega) hbk rfl
      obtain ⟨d, hd'⟩ := ih _ (by omega) hbd rfl
      exact ⟨_, .defaulted hd hk hd' hr⟩

end LogConfig.Substitution
