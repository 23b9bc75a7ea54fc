import LogConfig.Proofs.Effects.Outcome

/-
  What phases do to the stack of objects. A phase keeps the stack (`Phase.Keeps`), or ends with a
  stack of its own and keeps it when it signals (`Phase.Ends`), or takes an object from the stack
  that it finds on top (`Phase.Releases`). All three are read off what the phase yields.
-/

namespace LogConfig
namespace Phase

/-- Called in this session, the phase ends with a value and a stack in `Q`, or with a signal and
the stack as it was. -/
structure Ends {α : Type} (x : Phase α) (s : Session) (Q : α → List Ref → Prop) : Prop where
  ok : ∀ a s', x s = .ok a s' → Q a s'.stack
  error : ∀ e s', x s = .error e s' → s'.stack = s.stack

/-- The phase leaves the stack as it is, with a value or with a signal. -/
def Keeps {α : Type} (x : Phase α) : Prop := ∀ s, (left (x s)).stack = s.stack

variable {α : Type} {x : Phase α} {s : Session} {Q : α → Session → Prop}
  {E : ConfigError → Session → Prop}

theorem Ends.mono {Q Q' : α → List Ref → Prop} (h : x.Ends s Q)
    (hq : ∀ a st, Q a st → Q' a st) : x.Ends s Q' :=
  ⟨fun a s' hx => hq a s'.stack (h.ok a s' hx), h.error⟩

theorem Yields.ends {Q' : α → List Ref → Prop} (h : x.Yields s Q E)
    (hq : ∀ a s', Q a s' → Q' a s'.stack) (he : ∀ e s', E e s' → s'.stack = s.stack) :
    x.Ends s Q' := by
  refine ⟨fun a s' hx => hq a s' (h.of_ok hx), fun signal s' hx => ?_⟩
  obtain ⟨e, -, hs'⟩ := h.of_error hx
  exact he e s' hs'

theorem Yields.stack {st : List Ref} (h : x.Yields s Q E) (hq : ∀ a s', Q a s' → s'.stack = st)
    (he : ∀ e s', E e s' → s'.stack = st) : (Phase.left (x s)).stack = st :=
  h.left (P := fun s' => s'.stack = st) hq he

theorem Keeps.ends (h : x.Keeps) (s : Session) : x.Ends s fun _ st => st = s.stack := by
  have hs := h s
  refine ⟨fun a s' hx => ?_, fun signal s' hx => ?_⟩
  · rwa [hx] at hs
  · rwa [hx] at hs

theorem keeps_pure (a : α) : (pure a : Phase α).Keeps := fun _ => rfl

/-! ### Phases that release an object -/

/-- The stack without an object that is to be on top; another object on top stays. -/
def release : Option Ref → List Ref → List Ref
  | none, st => st
  | some r, st => if st.head? = some r then st.tail else st

theorem release_some (r : Ref) (st : List Ref) :
    release (some r) st = if st.head? = some r then st.tail else st := rfl

theorem release_suffix (pushed : Option Ref) (st : List Ref) : release pushed st <:+ st := by
  cases pushed with
  | none => exact List.suffix_refl st
  | some r =>
    rw [release_some]
    split
    · exact List.tail_suffix st
    · exact List.suffix_refl st

/-- The phase takes the object from the stack and changes nothing else there. -/
def Releases (x : Phase α) (pushed : Option Ref) : Prop :=
  ∀ s, (left (x s)).stack = release pushed s.stack

theorem Keeps.releases (h : x.Keeps) : x.Releases none := h

end Phase
end LogConfig
