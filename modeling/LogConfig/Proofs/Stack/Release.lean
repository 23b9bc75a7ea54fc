import LogConfig.Proofs.Dispatch.Calls
import LogConfig.Proofs.Dispatch.Phases
import LogConfig.Proofs.Stack.Actions

/-
  What the phases of one element do to the stack together. The actions that began hold the objects
  they pushed (`Held`); the end phases run in the same order as the begin phases and release these
  objects one by one (`releaseAll`), each only when it is on top. What the interpreter does with
  one event is read off the equations of `Dispatch.Phases`.
-/

namespace LogConfig

/-- The stack after several objects were released in this order. -/
def releaseAll : List Ref → List Ref → List Ref
  | [], st => st
  | r :: rest, st => releaseAll rest (Phase.release (some r) st)

/-- At most as many objects go as are released; as many go only if they lie in this order. -/
theorem releaseAll_eq_drop (rs st : List Ref) :
    ∃ n, n ≤ rs.length ∧ releaseAll rs st = st.drop n ∧ (n = rs.length → rs <+: st) := by
  induction rs generalizing st with
  | nil => exact ⟨0, Nat.le_refl 0, rfl, fun _ => List.nil_prefix⟩
  | cons r rest ih =>
    unfold releaseAll
    rw [Phase.release_some]
    by_cases h : st.head? = some r
    · obtain ⟨st', rfl⟩ := List.head?_eq_some_iff.1 h
      obtain ⟨n, hn, hdrop, hprefix⟩ := ih st'
      refine ⟨n + 1, by simpa using hn, ?_, fun he => ?_⟩
      · rw [if_pos h, List.tail_cons, hdrop, List.drop_succ_cons]
      · exact (List.cons_prefix_cons.2 ⟨rfl, hprefix (by simpa using he)⟩)
    · obtain ⟨n, hn, hdrop, -⟩ := ih st
      refine ⟨n, by simp only [List.length_cons]; omega, ?_, fun he => ?_⟩
      · rw [if_neg h, hdrop]
      · simp only [List.length_cons] at he
        omega

theorem releaseAll_append (rs st : List Ref) : releaseAll rs (rs ++ st) = st := by
  induction rs with
  | nil => rfl
  | cons r rest ih =>
    unfold releaseAll
    rw [Phase.release_some, List.cons_append, List.head?_cons, if_pos rfl, List.tail_cons, ih]

/-- Objects that read the same from both ends. -/
def Mirrored (rs : List Ref) : Prop := rs.reverse = rs

/-- What lay below the objects pushed stays. It is all that stays exactly when nothing lies above
them and they read the same in the order of the pushes and in that of the releases. -/
theorem releaseAll_pushed (extra rs st : List Ref) :
    st <:+ releaseAll rs (extra ++ (rs.reverse ++ st)) ∧
      (releaseAll rs (extra ++ (rs.reverse ++ st)) = st ↔ extra = [] ∧ Mirrored rs) := by
  obtain ⟨n, hn, hdrop, hprefix⟩ := releaseAll_eq_drop rs (extra ++ (rs.reverse ++ st))
  have above : (extra ++ (rs.reverse ++ st)).drop n = (extra ++ rs.reverse).drop n ++ st := by
    rw [← List.append_assoc, List.drop_append_of_le_length]
    simp only [List.length_append, List.length_reverse]
    omega
  constructor
  · rw [hdrop, above]
    exact List.suffix_append _ _
  · constructor
    · intro he
      rw [hdrop, above, List.append_left_eq_self, List.drop_eq_nil_iff] at he
      simp only [List.length_append, List.length_reverse] at he
      have hextra : extra = [] := List.eq_nil_of_length_eq_zero (by omega)
      subst hextra
      refine ⟨rfl, ?_⟩
      have hp : rs <+: rs.reverse ++ st := hprefix (by simp only [List.length_nil] at he; omega)
      have hle : rs.length ≤ rs.reverse.length := Nat.le_of_eq List.length_reverse.symm
      have hin := List.prefix_of_prefix_length_le hp (List.prefix_append rs.reverse st) hle
      exact (hin.eq_of_length List.length_reverse.symm).symm
    · rintro ⟨rfl, hm⟩
      rw [List.nil_append, hm]
      exact releaseAll_append rs st

/-! ### Actions of one element -/

/-- The objects that actions hold which began for an element, in the order of their pushes. -/
inductive Held : List Invocation → List Ref → Prop where
  | nil : Held [] []
  | cons {v : Invocation} {rest : List Invocation} {pushed : Option Ref} {rs : List Ref} :
    v.action.Releases v.data pushed → Held rest rs → Held (v :: rest) (pushed.toList ++ rs)

theorem releaseAll_toList_append (pushed : Option Ref) (rs st : List Ref) :
    releaseAll (pushed.toList ++ rs) st = releaseAll rs (Phase.release pushed st) := by
  cases pushed with
  | none => rfl
  | some r => rfl

namespace Scene

/-- All actions that are bound or can be bound are disciplined. -/
def Disciplined (sc : Scene) : Prop := sc.rules.All Action.Disciplined

/-- Recording a failure and binding rules keep the stack that the phase left. -/
theorem after_spec {sc : Scene} (h : sc.Disciplined) (call : Call) :
    (sc.after call).Disciplined ∧ (sc.after call).session.stack = call.left.stack := by
  obtain ⟨rules, remarks, hafter, -, hall⟩ := sc.exists_after_eq call
  rw [hafter]
  exact ⟨hall (fun _ n ha => ha.instance n) h, rfl⟩

theorem actionsFor_spec {sc : Scene} (h : sc.Disciplined) {implicit : List ImplicitAction}
    (hi : ∀ rule ∈ implicit, rule.action.Disciplined) (path : ElementPath)
    (attributes : Attributes) :
    (sc.actionsFor implicit path attributes).1.Disciplined ∧
      (sc.actionsFor implicit path attributes).1.session.stack = sc.session.stack ∧
      ∀ a ∈ (sc.actionsFor implicit path attributes).2, a.Disciplined := by
  unfold actionsFor
  cases hm : sc.rules.match? path with
  | some actions => exact ⟨h, rfl, h.match? hm⟩
  | none =>
    dsimp only
    cases hf : implicit.find? fun rule => rule.applies path attributes sc.session with
    | none => exact ⟨h, rfl, fun a ha => absurd ha List.not_mem_nil⟩
    | some rule =>
      refine ⟨h, rfl, fun a ha => ?_⟩
      rw [List.mem_singleton.1 ha]
      exact hi rule (List.mem_of_find?_eq_some hf)

/-- The begin phases of an element leave their objects on the stack, the last one on top. -/
theorem beginAll_spec (name : String) (attributes : Attributes) {sc : Scene} (h : sc.Disciplined)
    {actions : List Action} (ha : ∀ a ∈ actions, a.Disciplined) :
    (sc.beginAll name attributes actions).1.Disciplined ∧
      ∃ rs, Held (sc.beginAll name attributes actions).2.1 rs ∧
        (sc.beginAll name attributes actions).1.session.stack = rs.reverse ++ sc.session.stack := by
  induction actions generalizing sc with
  | nil => exact ⟨h, [], .nil, rfl⟩
  | cons a rest ih =>
    obtain ⟨hfirst, hrest⟩ := List.forall_mem_cons.1 ha
    have hbegin := hfirst name attributes sc.session
    let call := Call.begin a name attributes sc.session
    obtain ⟨hafter, hst⟩ := after_spec h call
    obtain ⟨hall, rs, hheld, hst'⟩ := ih hafter hrest
    rw [beginAll_cons sc name attributes a rest (rfl : call = _)]
    refine ⟨hall, ?_⟩
    dsimp only
    rw [hst', hst]
    cases hb : a.begin name attributes sc.session with
    | ok data session =>
      obtain ⟨pushed, hpushed, hr⟩ := hbegin.ok data session hb
      rw [show call.begun? = _ from Call.begun?_begin_ok hb,
        show call.left = session from congrArg Phase.left hb, hpushed]
      refine ⟨pushed.toList ++ rs, .cons hr hheld, ?_⟩
      cases pushed with
      | none => rfl
      | some r => simp
    | error signal session =>
      rw [show call.begun? = none from Call.begun?_begin_error hb,
        show call.left = session from congrArg Phase.left hb, hbegin.error signal session hb]
      exact ⟨rs, hheld, rfl⟩

/-- The body phases of an element keep the stack and what the actions hold. -/
theorem bodyAll_spec (name text : String) {sc : Scene} (h : sc.Disciplined)
    {begun : List Invocation} {rs : List Ref} (hh : Held begun rs) :
    (sc.bodyAll name text begun).1.Disciplined ∧ Held (sc.bodyAll name text begun).2.1 rs ∧
      (sc.bodyAll name text begun).1.session.stack = sc.session.stack := by
  induction hh generalizing sc with
  | nil => exact ⟨h, .nil, rfl⟩
  | @cons v rest pushed rs hr _ ih =>
    obtain ⟨hafter, hst⟩ := after_spec h (.body v.action name text v.data sc.session)
    obtain ⟨hall, hheld, hst'⟩ := ih hafter
    rw [bodyAll_cons sc name text v rest rfl]
    have hr' : v.action.Releases (v.action.body name text v.data sc.session).2 pushed := by
      rw [hr.body_data]
      exact hr
    refine ⟨hall, .cons hr' hheld, ?_⟩
    exact hst'.trans (hst.trans (hr.body_keeps name text sc.session))

/-- The end phases of an element release what its actions hold, in the order of the pushes. -/
theorem finishAll_spec (name : String) {sc : Scene} (h : sc.Disciplined) {begun : List Invocation}
    {rs : List Ref} (hh : Held begun rs) :
    (sc.finishAll name begun).1.Disciplined ∧
      (sc.finishAll name begun).1.session.stack = releaseAll rs sc.session.stack := by
  induction hh generalizing sc with
  | nil => exact ⟨h, rfl⟩
  | @cons v rest pushed rs hr _ ih =>
    obtain ⟨hafter, hst⟩ := after_spec h (.finish v.action name v.data sc.session)
    obtain ⟨hall, hst'⟩ := ih hafter
    rw [finishAll_cons sc name v rest rfl, releaseAll_toList_append,
      ← hr.finish_releases name sc.session]
    exact ⟨hall, hst'.trans (congrArg _ hst)⟩

theorem close_spec (name text : String) {sc : Scene} (h : sc.Disciplined) {begun : List Invocation}
    {rs : List Ref} (hh : Held begun rs) :
    (sc.close name text begun).1.Disciplined ∧
      (sc.close name text begun).1.session.stack = releaseAll rs sc.session.stack := by
  unfold close
  split
  · exact finishAll_spec name h hh
  · obtain ⟨hbody, hheld, hst⟩ := bodyAll_spec name (Text.trim text) h hh
    obtain ⟨hall, hst'⟩ := finishAll_spec name hbody hheld
    exact ⟨hall, by rw [← hst]; exact hst'⟩

end Scene
end LogConfig
