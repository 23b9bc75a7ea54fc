import LogConfig.LoggerTree

/-
  The level in force for a name, told without the walk over its ancestors: of all existing loggers
  with a level of their own, the name lies within some, and the one with the longest name decides;
  where there is none, the root logger does (`Graph.InForce`). The walk finds this level
  (`Graph.effectiveLevel_eq_iff`) if no logger but the root has a spelling of the root's name.
-/

namespace LogConfig

/-! ### Names within one another -/

/-- A name lies within itself, and within each of its prefixes that end right before a dot. -/
def Logger.IsWithin (ancestor name : String) : Prop :=
  name = ancestor ∨ ∃ rest, name = ancestor ++ "." ++ rest

theorem mem_dottedPrefixes {before cs : List Char} :
    before ∈ dottedPrefixes cs ↔ ∃ rest, cs = before ++ '.' :: rest := by
  induction cs generalizing before with
  | nil => simp [dottedPrefixes]
  | cons c cs ih =>
    cases before with
    | nil =>
      unfold dottedPrefixes
      split <;> simp [*]
    | cons d before =>
      have hlonger : d :: before ∈ dottedPrefixes (c :: cs) ↔
          before ∈ dottedPrefixes cs ∧ c = d := by
        rw [dottedPrefixes]
        split <;> simp
      rw [hlonger, ih, and_comm]
      simp

theorem dottedPrefixes_sorted (cs : List Char) :
    (dottedPrefixes cs).Pairwise fun shorter longer => shorter.length < longer.length := by
  induction cs with
  | nil => exact .nil
  | cons c cs ih =>
    have hlonger : ((dottedPrefixes cs).map (c :: ·)).Pairwise
        fun shorter longer => shorter.length < longer.length :=
      List.pairwise_map.2 (ih.imp fun h => by simpa using h)
    unfold dottedPrefixes
    split
    · refine List.pairwise_cons.2 ⟨fun longer hmem => ?_, hlonger⟩
      obtain ⟨before, -, rfl⟩ := List.mem_map.1 hmem
      exact Nat.succ_pos _
    · exact hlonger

namespace Logger

theorem isWithin_iff_toList {ancestor name : String} :
    IsWithin ancestor name ↔
      name.toList = ancestor.toList ∨ ∃ rest, name.toList = ancestor.toList ++ '.' :: rest := by
  refine or_congr String.toList_inj.symm ⟨?_, ?_⟩
  · rintro ⟨rest, rfl⟩
    exact ⟨rest.toList, by simp⟩
  · rintro ⟨rest, hrest⟩
    exact ⟨String.ofList rest, String.toList_inj.1 (by simp [hrest])⟩

theorem IsWithin.starts {ancestor name : String} (h : IsWithin ancestor name) :
    ancestor.toList <+: name.toList := by
  rcases isWithin_iff_toList.1 h with heq | ⟨rest, heq⟩
  · exact ⟨[], by rw [heq, List.append_nil]⟩
  · exact ⟨_, heq.symm⟩

/-- Two names that a third lies within are one, if they have the same length. -/
theorem IsWithin.eq_of_length_eq {a b name : String} (ha : IsWithin a name) (hb : IsWithin b name)
    (h : a.length = b.length) : a = b := by
  rw [← String.length_toList, ← String.length_toList] at h
  have hstarts := List.prefix_of_prefix_length_le ha.starts hb.starts (Nat.le_of_eq h)
  exact String.toList_inj.1 (hstarts.eq_of_length h)

/-- Of two names that a third lies within, the longer one has a dot after the shorter one. -/
theorem IsWithin.dot_of_length_lt {a b name : String} (ha : IsWithin a name)
    (hb : IsWithin b name) (h : a.length < b.length) : '.' ∈ b.toList := by
  rw [← String.length_toList, ← String.length_toList] at h
  obtain ⟨after, hafter⟩ := hb.starts
  rcases isWithin_iff_toList.1 ha with hname | ⟨rest, hname⟩
  · have hlength := congrArg List.length hafter
    rw [hname, List.length_append] at hlength
    omega
  · obtain ⟨more, hmore⟩ := List.prefix_of_prefix_length_le ha.starts hb.starts (Nat.le_of_lt h)
    rw [← hmore, hname, List.append_assoc, List.append_cancel_left_eq] at hafter
    cases more with
    | nil =>
      rw [← hmore, List.append_nil] at h
      exact absurd h (Nat.lt_irrefl _)
    | cons c more =>
      obtain ⟨rfl, -⟩ := List.cons.inj hafter
      rw [← hmore]
      simp

/-- The name of the root logger has no dot, in any spelling. -/
theorem not_dot_of_isRootName {name : String} (h : isRootName name = true) :
    '.' ∉ name.toList := by
  intro hdot
  have hspelling : name.toList.map Char.toLower = rootName.toList.map Char.toLower :=
    beq_iff_eq.1 h
  have hlower : Char.toLower '.' ∈ rootName.toList.map Char.toLower :=
    hspelling ▸ List.mem_map_of_mem hdot
  exact absurd hlower (by decide)

end Logger

theorem mem_ancestry {ancestor name : String} :
    ancestor ∈ ancestry name ↔ Logger.IsWithin ancestor name := by
  have hdotted : ancestor ∈ (dottedPrefixes name.toList).map String.ofList ↔
      ancestor.toList ∈ dottedPrefixes name.toList := by
    rw [List.mem_map]
    constructor
    · rintro ⟨before, hbefore, rfl⟩
      rwa [String.toList_ofList]
    · intro hbefore
      exact ⟨_, hbefore, String.ofList_toList⟩
  rw [ancestry, List.mem_cons, List.mem_reverse, hdotted, mem_dottedPrefixes,
    Logger.isWithin_iff_toList, ← String.toList_inj, eq_comm (a := ancestor.toList)]

theorem ancestry_sorted (name : String) :
    (ancestry name).Pairwise fun nearer farther => farther.length < nearer.length := by
  refine List.pairwise_cons.2 ⟨fun ancestor hancestor => ?_, ?_⟩
  · obtain ⟨before, hbefore, rfl⟩ := List.mem_map.1 (List.mem_reverse.1 hancestor)
    obtain ⟨rest, hrest⟩ := mem_dottedPrefixes.1 hbefore
    rw [← String.length_toList, ← String.length_toList, hrest]
    simp
  · refine List.pairwise_reverse.2 (List.pairwise_map.2 ((dottedPrefixes_sorted _).imp ?_))
    intro shorter longer h
    simpa using h

/-- The first ancestor with an answer is the longest one. -/
theorem longest_of_findSome?_ancestry {α : Type} {f : String → Option α} {name : String} {a : α}
    (h : (ancestry name).findSome? f = some a) :
    ∃ ancestor, Logger.IsWithin ancestor name ∧ f ancestor = some a ∧
      ∀ other, Logger.IsWithin other name → ancestor.length < other.length → f other = none := by
  obtain ⟨nearer, ancestor, farther, hancestry, hfound, hnone⟩ := List.findSome?_eq_some_iff.1 h
  have hsorted := ancestry_sorted name
  rw [hancestry, List.pairwise_append, List.pairwise_cons] at hsorted
  refine ⟨ancestor, mem_ancestry.1 (by simp [hancestry]), hfound, fun other hother hlonger => ?_⟩
  have hmem := mem_ancestry.2 hother
  rw [hancestry, List.mem_append, List.mem_cons] at hmem
  rcases hmem with hnearer | rfl | hfarther
  · exact hnone other hnearer
  · exact absurd hlonger (Nat.lt_irrefl _)
  · exact absurd hlonger (Nat.lt_asymm (hsorted.2.1.1 other hfarther))

/-! ### The level in force -/

namespace Graph

/-- An existing logger has this name, in any spelling if it is the root, and this level of its
own. -/
def HasOwnLevel (g : Graph) (c : LoggerContext) (name : String) (level : Level) : Prop :=
  ∃ r l, c.find? name = some r ∧ g.logger? r = some l ∧ l.level = some level

/-- The level of the root logger, or the default one if it was cleared. -/
def rootLevel (g : Graph) (c : LoggerContext) : Level :=
  ((g.logger? c.root).bind Logger.level).getD LoggerContext.defaultLevel

/-- The level in force for a name: that of the logger with the longest name among those that the
name lies within and that have a level of their own, and the root's level if there is none. -/
inductive InForce (g : Graph) (c : LoggerContext) (name : String) : Level → Prop where
  | own {ancestor : String} {level : Level} : Logger.IsWithin ancestor name →
    g.HasOwnLevel c ancestor level →
    (∀ other level', Logger.IsWithin other name → g.HasOwnLevel c other level' →
      other.length ≤ ancestor.length) → InForce g c name level
  | root : (∀ ancestor level, Logger.IsWithin ancestor name → ¬ g.HasOwnLevel c ancestor level) →
    InForce g c name (g.rootLevel c)

variable {g : Graph} {c : LoggerContext}

theorem HasOwnLevel.unique {name : String} {level level' : Level} (h : g.HasOwnLevel c name level)
    (h' : g.HasOwnLevel c name level') : level = level' := by
  obtain ⟨r, l, hr, hl, hlevel⟩ := h
  obtain ⟨r', l', hr', hl', hlevel'⟩ := h'
  cases hr.symm.trans hr'
  cases hl.symm.trans hl'
  exact Option.some.inj (hlevel.symm.trans hlevel')

theorem InForce.unique {name : String} {level level' : Level} (h : g.InForce c name level)
    (h' : g.InForce c name level') : level = level' := by
  cases h with
  | own hwithin hown hlongest =>
    cases h' with
    | own hwithin' hown' hlongest' =>
      have hlength := Nat.le_antisymm (hlongest' _ _ hwithin hown) (hlongest _ _ hwithin' hown')
      obtain rfl := hwithin.eq_of_length_eq hwithin' hlength
      exact hown.unique hown'
    | root hnone => exact absurd hown (hnone _ _ hwithin)
  | root hnone =>
    cases h' with
    | own hwithin' hown' _ => exact absurd hown' (hnone _ _ hwithin')
    | root _ => rfl

theorem hasOwnLevel_of_isRootName {name : String} (hroot : Logger.isRootName name = true)
    {level : Level} : g.HasOwnLevel c name level ↔
      (g.logger? c.root).bind Logger.level = some level := by
  rw [HasOwnLevel, LoggerContext.find?, if_pos hroot, Option.bind_eq_some_iff]
  constructor
  · rintro ⟨r, l, hr, hl, hlevel⟩
    cases hr
    exact ⟨l, hl, hlevel⟩
  · rintro ⟨l, hl, hlevel⟩
    exact ⟨_, l, rfl, hl, hlevel⟩

theorem hasOwnLevel_of_not_isRootName {name : String} (hroot : ¬ Logger.isRootName name = true)
    {level : Level} : g.HasOwnLevel c name level ↔ g.ownLevel? c name = some level := by
  rw [HasOwnLevel, LoggerContext.find?, if_neg hroot, ownLevel?, Option.bind_eq_some_iff]
  simp only [Option.bind_eq_some_iff]
  constructor
  · rintro ⟨r, l, hr, hl, hlevel⟩
    exact ⟨r, hr, l, hl, hlevel⟩
  · rintro ⟨r, hr, l, hl, hlevel⟩
    exact ⟨r, l, hr, hl, hlevel⟩

/-- No logger but the root has a spelling of the root's name. -/
def Unrooted (c : LoggerContext) : Prop :=
  ∀ name, Logger.isRootName name = true → Entries.find? name c.loggers = none

theorem Unrooted.ownLevel? (h : Unrooted c) {name : String}
    (hroot : Logger.isRootName name = true) : g.ownLevel? c name = none := by
  rw [Graph.ownLevel?, h name hroot]
  rfl

theorem inForce_effectiveLevel (h : Unrooted c) (name : String) :
    g.InForce c name (g.effectiveLevel c name) := by
  unfold effectiveLevel
  cases hfound : (ancestry name).findSome? (g.ownLevel? c) with
  | some level =>
    obtain ⟨ancestor, hwithin, hown, hlongest⟩ := longest_of_findSome?_ancestry hfound
    have hroot : ¬ Logger.isRootName ancestor = true := by
      intro hroot
      rw [h.ownLevel? hroot] at hown
      cases hown
    refine .own hwithin ((hasOwnLevel_of_not_isRootName hroot).2 hown) ?_
    intro other level' hother hown'
    refine Nat.le_of_not_lt fun hlonger => ?_
    -- a longer name has a dot, so it is no spelling of the root's
    by_cases hroot' : Logger.isRootName other = true
    · exact Logger.not_dot_of_isRootName hroot' (hwithin.dot_of_length_lt hother hlonger)
    · rw [hasOwnLevel_of_not_isRootName hroot', hlongest other hother hlonger] at hown'
      cases hown'
  | none =>
    have hnone := List.findSome?_eq_none_iff.1 hfound
    -- only a spelling of the root's name can stand for a logger with a level
    have hspelling : ∀ ancestor level, Logger.IsWithin ancestor name →
        g.HasOwnLevel c ancestor level → Logger.isRootName ancestor = true := by
      intro ancestor level hwithin hown
      by_cases hroot : Logger.isRootName ancestor = true
      · exact hroot
      · rw [hasOwnLevel_of_not_isRootName hroot, hnone _ (mem_ancestry.2 hwithin)] at hown
        cases hown
    by_cases hany : ∃ ancestor level, Logger.IsWithin ancestor name ∧
        g.HasOwnLevel c ancestor level
    · obtain ⟨ancestor, level, hwithin, hown⟩ := hany
      have hlevel := (hasOwnLevel_of_isRootName (hspelling _ _ hwithin hown)).1 hown
      dsimp only
      rw [hlevel]
      refine .own hwithin hown fun other level' hother hown' => Nat.le_of_not_lt fun hlonger => ?_
      exact Logger.not_dot_of_isRootName (hspelling _ _ hother hown')
        (hwithin.dot_of_length_lt hother hlonger)
    · exact .root fun ancestor level hwithin hown => hany ⟨ancestor, level, hwithin, hown⟩

/-- The walk over the ancestors of a name finds the level in force for it. -/
theorem effectiveLevel_eq_iff (h : Unrooted c) {name : String} {level : Level} :
    g.effectiveLevel c name = level ↔ g.InForce c name level := by
  constructor
  · rintro rfl
    exact inForce_effectiveLevel h name
  · exact (inForce_effectiveLevel h name).unique

end Graph
end LogConfig
