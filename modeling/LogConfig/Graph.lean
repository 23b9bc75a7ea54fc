import LogConfig.Component

/-
  Component graphs: the components of a configuration, addressed by handles. Components are only
  ever added and changed, so a handle stays valid. The lemmas say what each operation does to
  the component under a handle.
-/

namespace LogConfig

structure Graph where
  cells : Array Component := #[]

namespace Graph

def empty : Graph := {}

/-- The component under a handle. -/
def get? (g : Graph) (r : Ref) : Option Component := g.cells[r.index]?

/-- The handle that the next added component will have. -/
def next (g : Graph) : Ref := ⟨g.cells.size⟩

/-- Adds a component, under the handle `next`. -/
def add (g : Graph) (c : Component) : Graph := ⟨g.cells.push c⟩

/-- Puts a component under a handle in use. -/
def put (g : Graph) (r : Ref) (c : Component) : Graph := ⟨g.cells.setIfInBounds r.index c⟩

/-- Changes the component under a handle by an operation that may refuse. -/
def update (g : Graph) (r : Ref) (f : Component → Except PropertyError Component) :
    Except PropertyError Graph :=
  match g.get? r with
  | some c => (f c).map (g.put r)
  | none => .error (.notFound "" "")

def className (g : Graph) (r : Ref) : String := ((g.get? r).map Component.className).getD ""

def logger? (g : Graph) (r : Ref) : Option Logger :=
  match g.get? r with
  | some (.logger l) => some l
  | _ => none

def context? (g : Graph) (r : Ref) : Option LoggerContext :=
  match g.get? r with
  | some (.context c) => some c
  | _ => none

/-- Changes the logger under a handle, where there is one. -/
def modifyLogger (g : Graph) (r : Ref) (f : Logger → Logger) : Graph :=
  match g.logger? r with
  | some l => g.put r (.logger (f l))
  | none => g

/-- The name of the component under a handle, if it has one. -/
def title? (g : Graph) (r : Ref) : Option String := (g.get? r).bind Component.title?

theorem get?_add (g : Graph) (c : Component) (r : Ref) :
    (g.add c).get? r = if r = g.next then some c else g.get? r := by
  cases r with
  | mk i => simp [get?, add, next, Array.getElem?_push, Ref.mk.injEq]

@[simp] theorem get?_add_next (g : Graph) (c : Component) : (g.add c).get? g.next = some c := by
  simp [get?_add]

/-- The handle `next` is not in use. -/
theorem get?_next (g : Graph) : g.get? g.next = none := by
  simp [get?, next]

theorem ne_next_of_get? {g : Graph} {r : Ref} {c : Component} (h : g.get? r = some c) :
    r ≠ g.next := by
  rintro rfl
  rw [get?_next] at h
  cases h

/-- An added component leaves those there are in place. -/
theorem get?_add_of_some {g : Graph} {r : Ref} {c : Component} (h : g.get? r = some c)
    (added : Component) : (g.add added).get? r = some c := by
  rw [get?_add, if_neg (ne_next_of_get? h), h]

theorem get?_put (g : Graph) (r s : Ref) (c : Component) :
    (g.put r c).get? s = if s = r then (g.get? s).map (fun _ => c) else g.get? s := by
  cases r with
  | mk i =>
    cases s with
    | mk j =>
      simp only [get?, put, Array.getElem?_setIfInBounds, Ref.mk.injEq]
      by_cases h : i = j
      · subst h
        by_cases hb : i < g.cells.size <;> simp [hb]
      · have h' : ¬ j = i := fun he => h he.symm
        simp [h, h']

theorem get?_put_self {g : Graph} {r : Ref} {c : Component} (h : g.get? r = some c)
    (changed : Component) : (g.put r changed).get? r = some changed := by
  rw [get?_put, if_pos rfl, h, Option.map_some]

theorem get?_put_of_ne {g : Graph} {r s : Ref} (h : s ≠ r) (changed : Component) :
    (g.put r changed).get? s = g.get? s := by
  rw [get?_put, if_neg h]

theorem put_self {g : Graph} {r : Ref} {c : Component} (h : g.get? r = some c) : g.put r c = g := by
  obtain ⟨hlt, he⟩ := Array.getElem?_eq_some_iff.1 (show g.cells[r.index]? = some c from h)
  unfold put Array.setIfInBounds
  rw [dif_pos hlt, ← he, Array.set_getElem_self]

end Graph
end LogConfig
