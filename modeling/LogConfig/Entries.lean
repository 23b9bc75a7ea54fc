/-
  Tables with text keys that keep the order in which keys were first entered. Entering a key
  again replaces its value and keeps its place.
-/

namespace LogConfig.Entries

/-- The value under a key. -/
def find? {α : Type} (key : String) : List (String × α) → Option α
  | [] => none
  | (k, v) :: rest => if k = key then some v else find? key rest

/-- Enters a value under a key. -/
def insert {α : Type} (key : String) (value : α) : List (String × α) → List (String × α)
  | [] => [(key, value)]
  | (k, v) :: rest => if k = key then (key, value) :: rest else (k, v) :: insert key value rest

/-- Removes the value under a key. -/
def erase {α : Type} (key : String) (table : List (String × α)) : List (String × α) :=
  table.filter fun entry => entry.1 ≠ key

def contains {α : Type} (key : String) (table : List (String × α)) : Bool :=
  (find? key table).isSome

def keys {α : Type} (table : List (String × α)) : List String := table.map Prod.fst

/-- The table of these entries, entered one after the other. -/
def ofList {α : Type} (entries : List (String × α)) : List (String × α) :=
  entries.foldl (fun table entry => insert entry.1 entry.2 table) []

@[simp] theorem find?_insert_self {α : Type} (key : String) (value : α)
    (table : List (String × α)) : find? key (insert key value table) = some value := by
  induction table with
  | nil => simp [insert, find?]
  | cons entry rest ih =>
    obtain ⟨k, v⟩ := entry
    by_cases h : k = key <;> simp [insert, find?, h, ih]

theorem find?_insert_of_ne {α : Type} {key other : String} (h : other ≠ key) (value : α)
    (table : List (String × α)) : find? other (insert key value table) = find? other table := by
  induction table with
  | nil => simp [insert, find?, h.symm]
  | cons entry rest ih =>
    obtain ⟨k, v⟩ := entry
    by_cases hk : k = key
    · subst hk; simp [insert, find?, h.symm]
    · by_cases ho : k = other
      · subst ho; simp [insert, find?, hk]
      · simp [insert, find?, hk, ho, ih]

theorem find?_insert {α : Type} (key other : String) (value : α) (table : List (String × α)) :
    find? other (insert key value table) = if other = key then some value else find? other table := by
  split
  · next h => subst h; exact find?_insert_self ..
  · next h => exact find?_insert_of_ne h ..

/-- A key is found exactly when it is one of the keys. -/
theorem find?_eq_none_iff {α : Type} (key : String) (table : List (String × α)) :
    find? key table = none ↔ key ∉ keys table := by
  induction table with
  | nil => simp [find?, keys]
  | cons entry rest ih =>
    obtain ⟨k, v⟩ := entry
    by_cases h : k = key
    · simp [find?, keys, h]
    · have h' : ¬ key = k := fun he => h he.symm
      simp only [keys] at ih
      simp [find?, keys, h, h', ih]

/-- Keys stay in place when a known key is entered again, and a new one comes last. -/
theorem keys_insert {α : Type} (key : String) (value : α) (table : List (String × α)) :
    keys (insert key value table) = if key ∈ keys table then keys table else keys table ++ [key] := by
  induction table with
  | nil => simp [insert, keys]
  | cons entry rest ih =>
    obtain ⟨k, v⟩ := entry
    simp only [keys] at ih
    by_cases h : k = key
    · simp [insert, keys, h]
    · have h' : ¬ key = k := fun he => h he.symm
      simp only [insert, h, if_false, keys, List.map_cons, List.mem_cons, h', false_or]
      rw [ih]
      split <;> simp_all

theorem find?_erase {α : Type} (key other : String) (table : List (String × α)) :
    find? other (erase key table) = if other = key then none else find? other table := by
  induction table with
  | nil => simp [erase, find?]
  | cons entry rest ih =>
    obtain ⟨k, v⟩ := entry
    simp only [erase] at ih
    by_cases hk : k = key <;> by_cases ho : other = key <;>
      simp_all [erase, find?]
    intro he
    exact absurd he.symm ho

end LogConfig.Entries
