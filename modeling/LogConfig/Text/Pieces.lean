/-
  Splitting a text at a separator. `intercalate_pieces`: joining the pieces by the separator gives
  the text back. `mem_cuts`: the cuts of a text are the ways to read it as two texts with the
  separator between them.
-/

namespace LogConfig.Text

/-- The pieces of a text between the occurrences of a separator; always at least one piece. -/
def pieces (separator : Char) : List Char → List (List Char)
  | [] => [[]]
  | c :: cs =>
    if c = separator then [] :: pieces separator cs
    else match pieces separator cs with
      | [] => [[c]]
      | piece :: rest => (c :: piece) :: rest

/-- What stands before and after each occurrence of a separator, in the order of the text. -/
def cuts (separator : Char) : List Char → List (List Char × List Char)
  | [] => []
  | c :: cs =>
    let later := (cuts separator cs).map fun (before, after) => (c :: before, after)
    if c = separator then ([], cs) :: later else later

theorem mem_cuts (separator : Char) (cs before after : List Char) :
    (before, after) ∈ cuts separator cs ↔ cs = before ++ separator :: after := by
  induction cs generalizing before with
  | nil => simp [cuts]
  | cons c cs ih =>
    have later : (before, after) ∈ (cuts separator cs).map (fun p => (c :: p.1, p.2)) ↔
        ∃ b, before = c :: b ∧ cs = b ++ separator :: after := by
      constructor
      · intro h
        obtain ⟨⟨b, a⟩, hm, he⟩ := List.mem_map.1 h
        obtain ⟨rfl, rfl⟩ := Prod.mk.inj he
        exact ⟨b, rfl, (ih b).1 hm⟩
      · rintro ⟨b, rfl, hb⟩
        exact List.mem_map.2 ⟨(b, after), (ih b).2 hb, rfl⟩
    have unfolded : (before, after) ∈ cuts separator (c :: cs) ↔
        (c = separator ∧ before = [] ∧ after = cs) ∨
          ∃ b, before = c :: b ∧ cs = b ++ separator :: after := by
      rw [← later]
      by_cases h : c = separator <;> simp [cuts, h]
    rw [unfolded]
    cases before with
    | nil => simp [eq_comm]
    | cons b before =>
      constructor
      · rintro (⟨_, hn, _⟩ | ⟨b', he, hc⟩)
        · simp at hn
        · obtain ⟨rfl, rfl⟩ := List.cons.inj he
          simp [hc]
      · intro h
        obtain ⟨rfl, hc⟩ := List.cons.inj h
        exact Or.inr ⟨before, rfl, hc⟩

theorem pieces_ne_nil (separator : Char) (cs : List Char) : pieces separator cs ≠ [] := by
  cases cs with
  | nil => simp [pieces]
  | cons c cs =>
    simp only [pieces]
    split
    · simp
    · split <;> simp

/-- Joining the pieces of a text by the separator gives the text back. -/
theorem intercalate_pieces (separator : Char) (cs : List Char) :
    [separator].intercalate (pieces separator cs) = cs := by
  induction cs with
  | nil => rfl
  | cons c cs ih =>
    simp only [pieces]
    cases h : pieces separator cs with
    | nil => exact absurd h (pieces_ne_nil separator cs)
    | cons piece rest =>
      rw [h] at ih
      by_cases hc : c = separator
      · subst hc
        simp only [if_true]
        cases rest <;> simp_all [List.intercalate, List.intersperse]
      · simp only [hc, if_false]
        cases rest <;> simp_all [List.intercalate, List.intersperse]

end LogConfig.Text
