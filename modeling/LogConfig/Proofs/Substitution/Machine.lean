import LogConfig.Proofs.Substitution.Expansion
import Mathlib.Logic.Relation

/-
  Substitution as a machine. It has one list of the keys being resolved, which a resolution
  extends before it expands the raw value of its key and shortens afterwards, whether the
  expansion succeeded or failed; an error leaves the calls under way one by one. A state holds what
  is called or returned, the calls that wait for it, and the list.

  `expand` has no such list to restore and no calls to look at: it hands each resolution the keys
  it may not meet, and a bound. That it is the same algorithm is `runs_of_expand`: what it answers
  is what the machine returns, with the calls and the list of the start.
-/

namespace LogConfig.Substitution

/-! ### The machine -/

/-- An expansion of `whole` under way: what it has put out, and what is left of the text, with
`offset` bytes before it. -/
structure Expansion where
  whole : List Char
  output : List Char
  offset : Nat
  rest : List Char

/-- The expansion of a text from its beginning. -/
def Expansion.start (text : List Char) : Expansion := ⟨text, [], 0, text⟩

/-- The expansion with more put out. -/
def Expansion.put (e : Expansion) (text : List Char) : Expansion :=
  { e with output := e.output ++ text }

/-- The expansion after its next reference, with the text before that put out. -/
def Expansion.skip (e : Expansion) (before reference remaining : List Char) : Expansion :=
  { e.put before with
    offset := e.offset + Text.byteSize before + Text.byteSize reference + 3
    rest := remaining }

/-- A call that waits for another to return. -/
inductive Frame where
  /-- An expansion that waits for the text of a key. -/
  | key (e : Expansion) (default : Option (List Char))
  /-- An expansion that waits for the value of a key. -/
  | value (e : Expansion) (default : Option (List Char))
  /-- An expansion that waits for a default. -/
  | default (e : Expansion)
  /-- A resolution that waits for the value of its key to be expanded. -/
  | raw (key : String)

/-- What is called or returned. -/
inductive Control where
  | expand (e : Expansion)
  | resolve (key : String)
  | expanded (r : Except SubstitutionError (List Char))
  | resolved (r : Except SubstitutionError (Option (List Char)))

def Control.IsReturn : Control → Prop
  | expand _ => False
  | resolve _ => False
  | expanded _ => True
  | resolved _ => True

/-- The calls that wait, innermost first, and the keys being resolved, outermost first. -/
structure State where
  control : Control
  calls : List Frame
  resolving : List String

/-- The state in which a text is about to be substituted. -/
def State.initial (text : List Char) : State := ⟨.expand (.start text), [], []⟩

/-- An expansion up to its next reference, whose key it has expanded. -/
def stepExpand (e : Expansion) (calls : List Frame) (resolving : List String) : State :=
  match breakOpen e.rest with
  | none => ⟨.expanded (.ok (e.output ++ e.rest)), calls, resolving⟩
  | some (before, after) =>
    match breakClose 0 after with
    | none => ⟨.expanded (.error (.unterminated (String.ofList e.whole)
        (e.offset + Text.byteSize before))), calls, resolving⟩
    | some (reference, remaining) =>
      ⟨.expand (.start (splitDefault 0 reference).1),
        .key (e.skip before reference remaining) (splitDefault 0 reference).2 :: calls, resolving⟩

/-- A resolution, which has the raw value of a defined key expanded. -/
def stepResolve (lookup : String → Option String) (key : String) (calls : List Frame)
    (resolving : List String) : State :=
  if key ∈ resolving then ⟨.resolved (.error (.circle (resolving ++ [key]))), calls, resolving⟩
  else match lookup key with
    | none => ⟨.resolved (.ok none), calls, resolving⟩
    | some raw => ⟨.expand (.start raw.toList), .raw key :: calls, resolving ++ [key]⟩

/-- The expansion goes on with the text of its reference put out, or returns the error. -/
def proceed (e : Expansion) (r : Except SubstitutionError (List Char)) (calls : List Frame)
    (resolving : List String) : State :=
  match r with
  | .ok text => ⟨.expand (e.put text), calls, resolving⟩
  | .error err => ⟨.expanded (.error err), calls, resolving⟩

/-- One step of the machine. It stops when the outermost call has returned. -/
def step (lookup : String → Option String) : State → Option State
  | ⟨.expand e, calls, resolving⟩ => some (stepExpand e calls resolving)
  | ⟨.resolve key, calls, resolving⟩ => some (stepResolve lookup key calls resolving)
  | ⟨.expanded (.ok text), .key e default :: calls, resolving⟩ =>
    some ⟨.resolve (String.ofList text), .value e default :: calls, resolving⟩
  | ⟨.expanded (.error err), .key e _ :: calls, resolving⟩ =>
    some (proceed e (.error err) calls resolving)
  | ⟨.resolved (.ok (some value)), .value e _ :: calls, resolving⟩ =>
    some (proceed e (.ok value) calls resolving)
  | ⟨.resolved (.ok none), .value e (some text) :: calls, resolving⟩ =>
    some ⟨.expand (.start text), .default e :: calls, resolving⟩
  | ⟨.resolved (.ok none), .value e none :: calls, resolving⟩ =>
    some (proceed e (.ok []) calls resolving)
  | ⟨.resolved (.error err), .value e _ :: calls, resolving⟩ =>
    some (proceed e (.error err) calls resolving)
  | ⟨.expanded r, .default e :: calls, resolving⟩ => some (proceed e r calls resolving)
  | ⟨.expanded r, .raw _ :: calls, resolving⟩ =>
    some ⟨.resolved (r.map some), calls, resolving.dropLast⟩
  | _ => none

/-! ### The steps of a call -/

section

variable {lookup : String → Option String} {e : Expansion} {calls : List Frame}
  {resolving : List String}

theorem stepExpand_literal (ho : breakOpen e.rest = none) :
    stepExpand e calls resolving = ⟨.expanded (.ok (e.output ++ e.rest)), calls, resolving⟩ := by
  unfold stepExpand
  rw [ho]

theorem stepExpand_unclosed {before after : List Char}
    (ho : breakOpen e.rest = some (before, after)) (hc : breakClose 0 after = none) :
    stepExpand e calls resolving = ⟨.expanded (.error (.unterminated (String.ofList e.whole)
      (e.offset + Text.byteSize before))), calls, resolving⟩ := by
  unfold stepExpand
  simp only [ho, hc]

theorem stepExpand_reference {before after reference remaining : List Char}
    (ho : breakOpen e.rest = some (before, after))
    (hc : breakClose 0 after = some (reference, remaining)) :
    stepExpand e calls resolving = ⟨.expand (.start (splitDefault 0 reference).1),
      .key (e.skip before reference remaining) (splitDefault 0 reference).2 :: calls,
      resolving⟩ := by
  unfold stepExpand
  simp only [ho, hc]

theorem stepResolve_circle {key : String} (h : key ∈ resolving) :
    stepResolve lookup key calls resolving =
      ⟨.resolved (.error (.circle (resolving ++ [key]))), calls, resolving⟩ := by
  unfold stepResolve
  rw [if_pos h]

theorem stepResolve_undefined {key : String} (h : key ∉ resolving) (hl : lookup key = none) :
    stepResolve lookup key calls resolving = ⟨.resolved (.ok none), calls, resolving⟩ := by
  unfold stepResolve
  rw [if_neg h, hl]

theorem stepResolve_defined {key raw : String} (h : key ∉ resolving) (hl : lookup key = some raw) :
    stepResolve lookup key calls resolving =
      ⟨.expand (.start raw.toList), .raw key :: calls, resolving ++ [key]⟩ := by
  unfold stepResolve
  rw [if_neg h, hl]

end

/-! ### Runs -/

/-- A call on top of the calls in `below` has not returned yet. -/
def State.Inside (below : List Frame) (s : State) : Prop :=
  below <:+ s.calls ∧ (s.calls = below → ¬ s.control.IsReturn)

/-- The steps of a call on top of the calls in `below`, up to its return. -/
abbrev Runs (lookup : String → Option String) (below : List Frame) : State → State → Prop :=
  Relation.ReflTransGen fun s s' => s.Inside below ∧ step lookup s = some s'

/-- The states that the machine comes to. -/
abbrev Reaches (lookup : String → Option String) : State → State → Prop :=
  Relation.ReflTransGen fun s s' => step lookup s = some s'

variable {lookup : String → Option String}

theorem State.inside_call {control : Control} {calls : List Frame} {resolving : List String}
    (h : ¬ control.IsReturn) : State.Inside calls ⟨control, calls, resolving⟩ :=
  ⟨List.suffix_rfl, fun _ => h⟩

theorem State.Inside.outer {f : Frame} {below : List Frame} {s : State}
    (h : s.Inside (f :: below)) : s.Inside below := by
  have hs : f :: below <:+ s.calls := h.1
  refine ⟨(List.suffix_cons f below).trans hs, fun he => ?_⟩
  have := hs.length_le
  rw [he, List.length_cons] at this
  omega

namespace Runs

variable {below : List Frame} {s s' s'' : State}

/-- What happens inside a call happens inside the call that waits for it. -/
theorem outer {f : Frame} (h : Runs lookup (f :: below) s s') : Runs lookup below s s' :=
  Relation.ReflTransGen.mono (fun _ _ hs => ⟨hs.1.outer, hs.2⟩) _ _ h

theorem reaches (h : Runs lookup below s s') : Reaches lookup s s' :=
  Relation.ReflTransGen.mono (fun _ _ hs => hs.2) _ _ h

/-- A call that makes its first step to `s'`. -/
theorem call {control : Control} {resolving : List String} (hc : ¬ control.IsReturn)
    (hs : step lookup ⟨control, below, resolving⟩ = some s') (h : Runs lookup below s' s'') :
    Runs lookup below ⟨control, below, resolving⟩ s'' :=
  .head ⟨State.inside_call hc, hs⟩ h

/-- A waiting call that goes on when the call on top of it has returned. -/
theorem resume {f : Frame} {control : Control} {resolving : List String}
    (h : Runs lookup (f :: below) s ⟨control, f :: below, resolving⟩)
    (hs : step lookup ⟨control, f :: below, resolving⟩ = some s')
    (h' : Runs lookup below s' s'') : Runs lookup below s s'' := by
  refine h.outer.trans (.head ⟨⟨List.suffix_cons f below, fun he => ?_⟩, hs⟩ h')
  exact absurd he (List.cons_ne_self f below)

end Runs

/-! ### Expansions run on the machine -/

/-- The resolver answers with what the machine returns when the keys in `resolving` are being
resolved, whatever calls wait. -/
def RunsAs (lookup : String → Option String) (resolving : List String)
    (resolve : String → Bounded (Option (List Char))) : Prop :=
  ∀ key r, (resolve key).run = some r → ∀ calls,
    Runs lookup calls ⟨.resolve key, calls, resolving⟩ ⟨.resolved r, calls, resolving⟩

section

variable {resolve : String → Bounded (Option (List Char))} {resolving : List String}

/-- The part of a text that is left expands as the machine runs. -/
def RunsFrom (lookup : String → Option String) (resolving : List String)
    (resolve : String → Bounded (Option (List Char))) (rest : List Char) : Prop :=
  ∀ (whole output : List Char) (offset : Nat) (r : Except SubstitutionError (List Char)),
    (expandWith resolve whole offset rest).run = some r → ∀ calls,
    Runs lookup calls ⟨.expand ⟨whole, output, offset, rest⟩, calls, resolving⟩
      ⟨.expanded (r.map (output ++ ·)), calls, resolving⟩

/-- A text that expands as the machine runs, from its beginning. -/
theorem RunsFrom.start {text : List Char} (h : RunsFrom lookup resolving resolve text)
    {r : Except SubstitutionError (List Char)}
    (hr : (expandWith resolve text 0 text).run = some r) (calls : List Frame) :
    Runs lookup calls ⟨.expand (.start text), calls, resolving⟩
      ⟨.expanded r, calls, resolving⟩ := by
  have := h text [] 0 r hr calls
  cases r with
  | ok out => exact this
  | error e => exact this

/-- Once the text of a key is there, the value of its reference comes as the resolver says. -/
theorem runs_value (hres : RunsAs lookup resolving resolve) {e : Expansion}
    {default : Option (List Char)}
    (hd : ∀ text, default = some text → RunsFrom lookup resolving resolve text)
    {key : List Char} {r : Except SubstitutionError (List Char)}
    (hr : (valueOf resolve default key).run = some r) (calls : List Frame) :
    Runs lookup calls ⟨.resolve (String.ofList key), .value e default :: calls, resolving⟩
      (proceed e r calls resolving) := by
  rcases run_bind_eq_some.1 hr with ⟨value?, hk, hv⟩ | ⟨err, hk, rfl⟩
  · cases value? with
    | some value =>
      cases hv
      exact (hres _ _ hk _).resume rfl .refl
    | none =>
      cases default with
      | none =>
        cases hv
        exact (hres _ _ hk _).resume rfl .refl
      | some text =>
        refine (hres _ _ hk _).resume rfl ?_
        refine Runs.resume ((hd text rfl).start hv (.default e :: calls)) ?_ .refl
        cases r <;> rfl
  · exact (hres _ _ hk _).resume rfl .refl

/-- The induction is on the length of what is left of the text, as for `expandWith`. -/
theorem runs_of_expandWith (hres : RunsAs lookup resolving resolve) (rest : List Char) :
    RunsFrom lookup resolving resolve rest := by
  induction hn : rest.length using Nat.strongRecOn generalizing rest with
  | _ n ih =>
    subst hn
    intro whole output offset r hr calls
    rcases ho : breakOpen rest with _ | ⟨before, after⟩
    · rw [expandWith_literal ho] at hr
      cases hr
      exact .call id (congrArg some (stepExpand_literal ho)) .refl
    rcases hc : breakClose 0 after with _ | ⟨reference, remaining⟩
    · rw [expandWith_unclosed ho hc] at hr
      cases hr
      exact .call id (congrArg some (stepExpand_unclosed ho hc)) .refl
    have h1 := length_breakOpen ho
    have h2 := length_breakClose hc
    obtain ⟨h3, h4⟩ := length_splitDefault 0 reference
    refine .call id (congrArg some (stepExpand_reference ho hc)) ?_
    rw [expandWith_reference ho hc] at hr
    have hkey := ih _ (by omega) (splitDefault 0 reference).1 rfl
    have hdefault : ∀ text, (splitDefault 0 reference).2 = some text →
        RunsFrom lookup resolving resolve text := fun text ht => by
      have := h4 text ht
      exact ih _ (by omega) text rfl
    rcases run_bind_eq_some.1 hr with ⟨key, hk, hr⟩ | ⟨err, hk, rfl⟩
    · refine (hkey.start hk _).resume rfl ?_
      rcases run_bind_eq_some.1 hr with ⟨value, hv, hr⟩ | ⟨err, hv, rfl⟩
      · refine (runs_value hres hdefault hv calls).trans ?_
        have hothers := ih _ (by omega) remaining rfl whole (output ++ before ++ value)
          (offset + Text.byteSize before + Text.byteSize reference + 3)
        rcases run_bind_eq_some.1 hr with ⟨others, hrest, hr⟩ | ⟨err, hrest, rfl⟩
        · cases hr
          have hout : output ++ before ++ value ++ others = output ++ (before ++ value ++ others) := by
            simp only [List.append_assoc]
          rw [Except.map, ← hout]
          exact hothers _ hrest calls
        · exact hothers _ hrest calls
      · exact runs_value hres hdefault hv calls
    · exact (hkey.start hk _).resume rfl .refl

end

/-- A resolution runs as the machine does, whatever the bound, if the bound is enough. -/
theorem runs_of_resolveAt (depth : Nat) (resolving : List String) :
    RunsAs lookup resolving (resolveAt lookup depth resolving) := by
  intro key r hr calls
  by_cases hk : key ∈ resolving
  · rw [resolveAt_circle lookup hk] at hr
    cases hr
    exact .call id (congrArg some (stepResolve_circle hk)) .refl
  cases hl : lookup key with
  | none =>
    rw [resolveAt_undefined hk hl] at hr
    cases hr
    exact .call id (congrArg some (stepResolve_undefined hk hl)) .refl
  | some raw =>
    cases depth with
    | zero =>
      rw [resolveAt_zero hk hl] at hr
      cases hr
    | succ depth =>
      refine .call id (congrArg some (stepResolve_defined hk hl)) ?_
      rw [resolveAt_succ hk hl] at hr
      have hraw := runs_of_expandWith (runs_of_resolveAt depth (resolving ++ [key])) raw.toList
      rcases run_bind_eq_some.1 hr with ⟨value, hv, hr⟩ | ⟨err, hv, rfl⟩
      · cases hr
        refine (hraw.start hv _).resume rfl ?_
        rw [List.dropLast_concat]
        exact .refl
      · refine (hraw.start hv _).resume rfl ?_
        rw [List.dropLast_concat]
        exact .refl

/-- The machine returns what the text expands to, with the calls and the keys of the start. -/
theorem runs_of_expand {depth : Nat} {text : String} {r : Except SubstitutionError (List Char)}
    (h : (expand lookup depth text).run = some r) :
    Reaches lookup (.initial text.toList) ⟨.expanded r, [], []⟩ :=
  ((runs_of_expandWith (runs_of_resolveAt depth []) text.toList).start h []).reaches

end LogConfig.Substitution
