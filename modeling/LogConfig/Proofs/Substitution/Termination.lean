import LogConfig.Proofs.Substitution.Machine
import LogConfig.Proofs.Substitution.Reading
import Mathlib.Data.List.Chain
import Mathlib.Data.List.Dedup

/-
  Substitution terminates. The size of the text is no measure: a value takes the place of its
  reference and may be longer. What is bounded is the nesting of calls. A resolution is never
  nested in one of the same key, and every other call is on a strictly shorter piece of the text
  of the call that makes it.

  * `State.Sound.step`: one step keeps that the calls that wait say which keys are being resolved,
    that these are distinct and defined, and that each call is on a piece of what its caller has.
  * `exists_return`: a machine that comes to its end has returned from every call it made.
  * `substitute_terminates`: for every text and every lookup of finitely many keys the machine
    comes to its end; on the way its resolutions nest as the lookup allows, and every return finds
    the keys being resolved as its call left them.
-/

namespace LogConfig.Substitution

/-! ### The calls under way -/

/-- A call as its caller makes it. -/
inductive Invocation where
  | expand (text : List Char)
  | resolve (key : String)

def Frame.invocation : Frame → Invocation
  | .key e _ => .expand e.whole
  | .value e _ => .expand e.whole
  | .default e => .expand e.whole
  | .raw k => .resolve k

def Control.invocation? : Control → Option Invocation
  | expand e => some (.expand e.whole)
  | resolve key => some (.resolve key)
  | expanded _ => none
  | resolved _ => none

/-- The calls that have not returned, innermost first. -/
def State.underWay (s : State) : List Invocation :=
  s.control.invocation?.toList ++ s.calls.map Frame.invocation

/-- The key of a resolution that has its raw value expanded. -/
def Frame.key? : Frame → Option String
  | .raw k => some k
  | _ => none

/-- The keys of the resolutions around what is called or returned, innermost first. -/
def State.resolutions (s : State) : List String := s.calls.filterMap Frame.key?

/-- A part of a text, but not all of it. -/
def StrictPiece (piece text : List Char) : Prop := piece <:+: text ∧ piece.length < text.length

/-- A call and the call that makes it. Only the raw value of a key is not a piece of the text at
hand. -/
inductive MadeBy (lookup : String → Option String) : Invocation → Invocation → Prop where
  | piece {text whole : List Char} : StrictPiece text whole →
    MadeBy lookup (.expand text) (.expand whole)
  | key {key : String} {whole : List Char} : MadeBy lookup (.resolve key) (.expand whole)
  | raw {key raw : String} : lookup key = some raw →
    MadeBy lookup (.expand raw.toList) (.resolve key)

/-- The keys that a lookup defines, each once. -/
def Lookup.defined (lookup : Lookup) : List String :=
  (lookup.keys.filter fun key => (lookup.value? key).isSome).dedup

theorem Lookup.mem_defined {lookup : Lookup} {key : String} :
    key ∈ lookup.defined ↔ lookup.value? key ≠ none := by
  rw [Lookup.defined, List.mem_dedup, List.mem_filter, Option.isSome_iff_ne_none]
  exact ⟨fun h => h.2, fun h => ⟨lookup.complete key h, h⟩⟩

/-! ### What a step keeps -/

variable {lookup : String → Option String}

/-- What a waiting expansion may still expand is part of its text. -/
def Frame.Pending : Frame → Prop
  | .key e d => e.rest <:+ e.whole ∧ ∀ text, d = some text → StrictPiece text e.whole
  | .value e d => e.rest <:+ e.whole ∧ ∀ text, d = some text → StrictPiece text e.whole
  | .default e => e.rest <:+ e.whole
  | .raw _ => True

/-- The calls that wait fit the keys being resolved and each other. -/
structure Waiting (lookup : String → Option String) (calls : List Frame)
    (resolving : List String) : Prop where
  keys : calls.filterMap Frame.key? = resolving.reverse
  distinct : resolving.Nodup
  defined : ∀ key ∈ resolving, lookup key ≠ none
  pending : ∀ f ∈ calls, f.Pending
  nested : (calls.map Frame.invocation).IsChain (MadeBy lookup)

/-- A call is one that the innermost waiting call makes. -/
def Fits (lookup : String → Option String) (call : Invocation) (calls : List Frame) : Prop :=
  ∀ f ∈ calls.head?, MadeBy lookup call f.invocation

/-- What is called is made by the call that waits for it. -/
def Control.Sound (lookup : String → Option String) (calls : List Frame) : Control → Prop
  | expand e => e.rest <:+ e.whole ∧ Fits lookup (.expand e.whole) calls
  | resolve key => Fits lookup (.resolve key) calls
  | expanded _ => True
  | resolved _ => True

structure State.Sound (lookup : String → Option String) (s : State) : Prop where
  waiting : Waiting lookup s.calls s.resolving
  control : s.control.Sound lookup s.calls

theorem StrictPiece.of_suffix {piece rest whole : List Char} (h : StrictPiece piece rest)
    (hs : rest <:+ whole) : StrictPiece piece whole :=
  ⟨h.1.trans hs.isInfix, Nat.lt_of_lt_of_le h.2 hs.length_le⟩

/-- The key, the default and the remaining text that the scanners cut out of a text. -/
theorem pieces_of_scan {cs before after reference remaining : List Char}
    (ho : breakOpen cs = some (before, after))
    (hc : breakClose 0 after = some (reference, remaining)) :
    StrictPiece (splitDefault 0 reference).1 cs ∧
      (∀ text, (splitDefault 0 reference).2 = some text → StrictPiece text cs) ∧
      remaining <:+ cs := by
  have h1 := length_breakOpen ho
  have h2 := length_breakClose hc
  obtain ⟨h3, h4⟩ := length_splitDefault 0 reference
  obtain ⟨hcs, hd⟩ := delimits_of_scan ho hc
  have href : reference <:+: cs := by
    rw [hcs, enclosed]
    exact ⟨before ++ ['$', '{'], '}' :: remaining, by simp⟩
  have hkey : (splitDefault 0 reference).1 <:+: reference :=
    ⟨[], _, hd.splits.whole.symm⟩
  refine ⟨⟨hkey.trans href, by omega⟩, fun text ht => ?_, ?_⟩
  · have hlen := h4 text ht
    have hdefault : text <:+: reference := by
      refine ⟨(splitDefault 0 reference).1 ++ [':', '-'], [], ?_⟩
      have hw := hd.splits.whole
      rw [ht, defaultTail] at hw
      rw [List.append_nil, List.append_assoc]
      exact hw.symm
    exact ⟨hdefault.trans href, by omega⟩
  · rw [hcs, enclosed]
    exact ⟨before ++ '$' :: '{' :: (reference ++ ['}']), by simp⟩

namespace Waiting

variable {calls : List Frame} {resolving : List String} {f : Frame}

theorem pop (h : Waiting lookup (f :: calls) resolving) (hf : f.key? = none) :
    Waiting lookup calls resolving where
  keys := by
    have := h.keys
    rwa [List.filterMap_cons_none hf] at this
  distinct := h.distinct
  defined := h.defined
  pending g hg := h.pending g (List.mem_cons_of_mem f hg)
  nested := h.nested.of_cons

/-- A call goes back to waiting, or another part of it does. -/
theorem push (h : Waiting lookup calls resolving) (hf : f.key? = none) (hp : f.Pending)
    (hn : Fits lookup f.invocation calls) : Waiting lookup (f :: calls) resolving where
  keys := by
    rw [List.filterMap_cons_none hf]
    exact h.keys
  distinct := h.distinct
  defined := h.defined
  pending g hg := by
    rcases List.mem_cons.1 hg with rfl | hg
    · exact hp
    · exact h.pending g hg
  nested := by
    refine h.nested.cons fun y hy => ?_
    rw [List.head?_map, Option.mem_def, Option.map_eq_some_iff] at hy
    obtain ⟨g, hg, rfl⟩ := hy
    exact hn g hg

/-- The innermost call that waits is one that the next one makes. -/
theorem fits (h : Waiting lookup (f :: calls) resolving) : Fits lookup f.invocation calls := by
  intro g hg
  refine (List.isChain_cons.1 h.nested).1 _ ?_
  rw [List.head?_map]
  exact Option.mem_map_of_mem Frame.invocation hg

/-- A key that is neither resolved already nor undefined is put under those resolved. -/
theorem pushRaw {key : String} (h : Waiting lookup calls resolving) (hk : key ∉ resolving)
    (hl : lookup key ≠ none) (hn : Fits lookup (.resolve key) calls) :
    Waiting lookup (.raw key :: calls) (resolving ++ [key]) where
  keys := by
    rw [List.filterMap_cons_some (show (Frame.raw key).key? = some key from rfl), h.keys,
      List.reverse_concat]
  distinct := by
    refine List.nodup_append.2 ⟨h.distinct, List.nodup_singleton key, fun k hk' l hl' he => ?_⟩
    rw [List.mem_singleton] at hl'
    exact hk (hl' ▸ he ▸ hk')
  defined k hk' := by
    rcases List.mem_append.1 hk' with hk' | hk'
    · exact h.defined k hk'
    · rw [List.mem_singleton.1 hk']
      exact hl
  pending g hg := by
    rcases List.mem_cons.1 hg with rfl | hg
    · trivial
    · exact h.pending g hg
  nested := by
    refine h.nested.cons fun y hy => ?_
    rw [List.head?_map, Option.mem_def, Option.map_eq_some_iff] at hy
    obtain ⟨g, hg, rfl⟩ := hy
    exact hn g hg

/-- The key of the innermost resolution is the last of those resolved. -/
theorem popRaw {key : String} (h : Waiting lookup (.raw key :: calls) resolving) :
    Waiting lookup calls resolving.dropLast where
  keys := by
    have hkeys := h.keys
    rw [List.filterMap_cons_some (show (Frame.raw key).key? = some key from rfl)] at hkeys
    rw [← List.tail_reverse, ← hkeys, List.tail_cons]
  distinct := h.distinct.sublist (List.dropLast_sublist resolving)
  defined k hk := h.defined k ((List.dropLast_sublist resolving).mem hk)
  pending g hg := h.pending g (List.mem_cons_of_mem _ hg)
  nested := h.nested.of_cons

end Waiting

/-! ### One step -/

section

variable {calls : List Frame} {resolving : List String}

/-- An expansion that waits no longer goes on with what is left of its text, or returns. -/
theorem sound_proceed {f : Frame} {e : Expansion} (h : Waiting lookup (f :: calls) resolving)
    (hf : f.key? = none) (hi : f.invocation = .expand e.whole) (hr : e.rest <:+ e.whole)
    (r : Except SubstitutionError (List Char)) :
    (proceed e r calls resolving).Sound lookup := by
  have hfits := h.fits
  rw [hi] at hfits
  cases r with
  | ok text => exact ⟨h.pop hf, hr, hfits⟩
  | error err => exact ⟨h.pop hf, trivial⟩

theorem sound_stepExpand {e : Expansion} (h : Waiting lookup calls resolving)
    (hr : e.rest <:+ e.whole) (hn : Fits lookup (.expand e.whole) calls) :
    (stepExpand e calls resolving).Sound lookup := by
  rcases ho : breakOpen e.rest with _ | ⟨before, after⟩
  · rw [stepExpand_literal ho]
    exact ⟨h, trivial⟩
  rcases hc : breakClose 0 after with _ | ⟨reference, remaining⟩
  · rw [stepExpand_unclosed ho hc]
    exact ⟨h, trivial⟩
  rw [stepExpand_reference ho hc]
  obtain ⟨hkey, hdefault, hremaining⟩ := pieces_of_scan ho hc
  refine ⟨h.push rfl ⟨hremaining.trans hr, fun text ht => (hdefault text ht).of_suffix hr⟩ hn,
    List.suffix_rfl, fun f hf => ?_⟩
  obtain rfl : _ = f := Option.some.inj hf
  exact .piece (hkey.of_suffix hr)

theorem sound_stepResolve {key : String} (h : Waiting lookup calls resolving)
    (hn : Fits lookup (.resolve key) calls) :
    (stepResolve lookup key calls resolving).Sound lookup := by
  by_cases hk : key ∈ resolving
  · rw [stepResolve_circle hk]
    exact ⟨h, trivial⟩
  cases hl : lookup key with
  | none =>
    rw [stepResolve_undefined hk hl]
    exact ⟨h, trivial⟩
  | some raw =>
    rw [stepResolve_defined hk hl]
    refine ⟨h.pushRaw hk (by rw [hl]; simp) hn, List.suffix_rfl, fun f hf => ?_⟩
    obtain rfl : _ = f := Option.some.inj hf
    exact .raw hl

end

/-- One case for each kind of step: the two calls, and each waiting call with what it waits for. -/
theorem State.Sound.step {s s' : State} (h : s.Sound lookup)
    (hs : Substitution.step lookup s = some s') : s'.Sound lookup := by
  obtain ⟨control, calls, resolving⟩ := s
  obtain ⟨hw, hc⟩ := h
  cases control with
  | expand e =>
    cases hs
    exact sound_stepExpand hw hc.1 hc.2
  | resolve key =>
    cases hs
    exact sound_stepResolve hw hc
  | expanded r =>
    cases calls with
    | nil => cases r <;> cases hs
    | cons f calls =>
      have hpending := hw.pending f List.mem_cons_self
      cases f with
      | key e default =>
        cases r with
        | ok text =>
          cases hs
          refine ⟨(hw.pop rfl).push rfl hpending hw.fits, fun f hf => ?_⟩
          obtain rfl : _ = f := Option.some.inj hf
          exact .key
        | error err =>
          cases hs
          exact sound_proceed hw rfl rfl hpending.1 _
      | value e default => cases r <;> cases hs
      | default e =>
        cases r <;> cases hs <;> exact sound_proceed hw rfl rfl hpending _
      | raw key =>
        cases r <;> cases hs <;> exact ⟨hw.popRaw, trivial⟩
  | resolved r =>
    cases calls with
    | nil => rcases r with err | _ | value <;> cases hs
    | cons f calls =>
      have hpending := hw.pending f List.mem_cons_self
      cases f with
      | value e default =>
        rcases r with err | _ | value
        · cases hs
          exact sound_proceed hw rfl rfl hpending.1 _
        · cases default with
          | none =>
            cases hs
            exact sound_proceed hw rfl rfl hpending.1 _
          | some text =>
            cases hs
            refine ⟨(hw.pop rfl).push rfl hpending.1 hw.fits, List.suffix_rfl, fun f hf => ?_⟩
            obtain rfl : _ = f := Option.some.inj hf
            exact .piece (hpending.2 text rfl)
        · cases hs
          exact sound_proceed hw rfl rfl hpending.1 _
      | key e default => rcases r with err | _ | value <;> cases hs
      | default e => rcases r with err | _ | value <;> cases hs
      | raw key => rcases r with err | _ | value <;> cases hs

theorem sound_initial (text : List Char) : (State.initial text).Sound lookup where
  waiting := ⟨rfl, List.nodup_nil, by simp [State.initial], by simp [State.initial], .nil⟩
  control := ⟨List.suffix_rfl, fun f hf => by cases hf⟩

theorem State.Sound.run {s s' : State} (h : s.Sound lookup) (hr : Reaches lookup s s') :
    s'.Sound lookup := by
  induction hr with
  | refl => exact h
  | tail _ hs ih => exact ih.step hs

/-- What is called is made by the innermost call that waits, and so on outwards. -/
theorem State.Sound.nested {s : State} (h : s.Sound lookup) :
    s.underWay.IsChain (MadeBy lookup) := by
  have hw := h.waiting.nested
  have around : ∀ call, Fits lookup call s.calls →
      (call :: s.calls.map Frame.invocation).IsChain (MadeBy lookup) := by
    intro call hn
    refine hw.cons fun y hy => ?_
    rw [List.head?_map, Option.mem_def, Option.map_eq_some_iff] at hy
    obtain ⟨g, hg, rfl⟩ := hy
    exact hn g hg
  obtain ⟨control, calls, resolving⟩ := s
  cases control with
  | expand e => exact around _ h.control.2
  | resolve key => exact around _ h.control
  | expanded r => exact hw
  | resolved r => exact hw

/-! ### Returns -/

theorem calls_proceed (e : Expansion) (r : Except SubstitutionError (List Char))
    (calls : List Frame) (resolving : List String) :
    (proceed e r calls resolving).calls = calls := by
  cases r <;> rfl

/-- A call is made on top of those that wait, and only a return takes one of them off. -/
theorem calls_of_step {s s' : State} (hs : step lookup s = some s') :
    (¬ s.control.IsReturn ∧ s.calls <:+ s'.calls) ∨
      (s.control.IsReturn ∧ s.calls.tail <:+ s'.calls) := by
  unfold step at hs
  split at hs
  case h_1 e calls resolving =>
    cases hs
    refine .inl ⟨id, ?_⟩
    unfold stepExpand
    split
    · exact List.suffix_rfl
    · split
      · exact List.suffix_rfl
      · exact List.suffix_cons _ calls
  case h_2 key calls resolving =>
    cases hs
    refine .inl ⟨id, ?_⟩
    unfold stepResolve
    split
    · exact List.suffix_rfl
    · split
      · exact List.suffix_rfl
      · exact List.suffix_cons _ calls
  all_goals first | cases hs; refine .inr ⟨trivial, ?_⟩ | cases hs
  all_goals first | exact List.suffix_cons _ _ | exact List.suffix_rfl |
    (rw [calls_proceed]; exact List.suffix_rfl)

/-- A call that is under way stays so until it has returned. -/
theorem State.Inside.step {below : List Frame} {s s' : State} (h : s.Inside below)
    (hs : Substitution.step lookup s = some s') : below <:+ s'.calls := by
  obtain ⟨hb, hr⟩ := h
  rcases calls_of_step hs with ⟨-, hc⟩ | ⟨hreturn, hc⟩
  · exact hb.trans hc
  · -- a return of a call further in, so there is one to take off
    refine List.IsSuffix.trans ?_ hc
    cases hcalls : s.calls with
    | nil =>
      rw [hcalls, List.suffix_nil] at hb
      exact absurd hreturn (hr (hcalls.trans hb.symm))
    | cons f calls =>
      rw [hcalls, List.suffix_cons_iff] at hb
      rcases hb with hb | hb
      · exact absurd hreturn (hr (hcalls.trans hb.symm))
      · exact hb

/-- A machine that comes to its end has returned from every call. -/
theorem exists_return {s t : State} (h : Reaches lookup s t) (ht : t.calls = [])
    (hr : t.control.IsReturn) {below : List Frame} (hb : below <:+ s.calls) :
    ∃ s', Runs lookup below s s' ∧ s'.calls = below ∧ s'.control.IsReturn := by
  induction h using Relation.ReflTransGen.head_induction_on with
  | refl =>
    rw [ht, List.suffix_nil] at hb
    exact ⟨t, .refl, ht.trans hb.symm, hr⟩
  | @head s s₁ hs _ ih =>
    by_cases hi : s.Inside below
    · obtain ⟨s', hrun, hs'⟩ := ih (hi.step hs)
      exact ⟨s', .head ⟨hi, hs⟩ hrun, hs'⟩
    · obtain ⟨he, hret⟩ : s.calls = below ∧ s.control.IsReturn := by
        unfold State.Inside at hi
        rw [not_and, Classical.not_imp, Classical.not_not] at hi
        exact hi hb
      exact ⟨s, .refl, he, hret⟩

/-- The machine has one way to go, so what it comes to leads to its end. -/
theorem Reaches.to_end {s s' t : State} (h : Reaches lookup s s') (ht : Reaches lookup s t)
    (hend : step lookup t = none) : Reaches lookup s' t := by
  induction h with
  | refl => exact ht
  | tail _ hs ih =>
    rcases Relation.ReflTransGen.cases_head ih with rfl | ⟨s₁, hs₁, ih⟩
    · rw [hend] at hs
      cases hs
    · obtain rfl := Option.some.inj (hs.symm.trans hs₁)
      exact ih

/-- A call and its return: the calls that wait are the same, and were there in between. -/
structure Returns (lookup : String → Option String) (s s' : State) : Prop where
  call : ¬ s.control.IsReturn
  runs : Runs lookup s.calls s s'
  calls : s'.calls = s.calls
  returned : s'.control.IsReturn

/-- The calls that wait say which keys are being resolved, so a return restores them. -/
theorem Returns.resolving_eq {s s' : State} (h : Returns lookup s s') (hs : s.Sound lookup) :
    s'.resolving = s.resolving := by
  have hkeys := (hs.run h.runs.reaches).waiting.keys
  rw [h.calls, hs.waiting.keys] at hkeys
  exact (List.reverse_inj.1 hkeys).symm

/-- Distinct keys that are defined are no more than the keys there are. -/
theorem State.Sound.length_resolutions_le {lookup : Lookup} {s : State}
    (h : s.Sound lookup.value?) : s.resolutions.length ≤ lookup.defined.length := by
  have hw := h.waiting
  rw [State.resolutions, hw.keys, List.length_reverse]
  exact hw.distinct.length_le_of_subset fun key hk => Lookup.mem_defined.2 (hw.defined key hk)

/-- Substitution terminates: from wherever the machine comes to on a text, it comes to its end,
where no call waits and no key is being resolved, with the text or the error that `substitute`
gives. On the way the keys being resolved are distinct and defined; they are the keys of the
resolutions around each call, which so are no more than the keys that the lookup defines; every
call but that of the raw value of a key expands a strict piece of the text of its caller; every
call returns, and every return leaves the keys being resolved as they were at its call. -/
theorem substitute_terminates (lookup : Lookup) (text : String) :
    ∃ r : Except SubstitutionError (List Char), substitute lookup text = r.map String.ofList ∧
      ∀ s, Reaches lookup.value? (.initial text.toList) s →
        Reaches lookup.value? s ⟨.expanded r, [], []⟩ ∧
        s.resolving.Nodup ∧ (∀ key ∈ s.resolving, lookup.value? key ≠ none) ∧
        s.resolutions = s.resolving.reverse ∧
        s.resolutions.length ≤ lookup.defined.length ∧
        s.underWay.IsChain (MadeBy lookup.value?) ∧
        (¬ s.control.IsReturn → ∃ s', Returns lookup.value? s s') ∧
        ∀ s', Returns lookup.value? s s' → s'.resolving = s.resolving := by
  obtain ⟨r, hr, he⟩ := substitute_spec lookup text
  refine ⟨r, he, fun s hs => ?_⟩
  have hend : Reaches lookup.value? s ⟨.expanded r, [], []⟩ :=
    hs.to_end (runs_of_expand hr) (by cases r <;> rfl)
  have hsound : s.Sound lookup.value? := (sound_initial text.toList).run hs
  refine ⟨hend, hsound.waiting.distinct, hsound.waiting.defined, hsound.waiting.keys,
    hsound.length_resolutions_le, hsound.nested, fun hc => ?_, fun s' hret =>
    hret.resolving_eq hsound⟩
  obtain ⟨s', hrun, hcalls, hreturn⟩ := exists_return hend rfl trivial List.suffix_rfl
  exact ⟨s', hc, hrun, hcalls, hreturn⟩

end LogConfig.Substitution
