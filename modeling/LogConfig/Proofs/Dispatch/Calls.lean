import LogConfig.Proofs.Dispatch.Phases
import LogConfig.Proofs.Dispatch.Rules
import LogConfig.Proofs.Effects.Outcome
import Mathlib.Data.List.Basic

/-
  The phases of one element as one loop over calls. A call is made in the session of a scene and
  settled in the session that it leaves (`Scene.after`); the begin phases, the body phases and the
  end phases of an element are each a run of such calls (`callAll`).

  Proved:
  * `exists_after_eq`: settling a call adds remarks, drops the rules asked for and binds them.
  * `beginAll_eq`, `bodyAll_eq`, `finishAll_eq`: the phases of an element as calls in a row.
  * `Kept.beginAll`, `Kept.bodyAll`, `Kept.finishAll`, `Kept.close`: a relation between scenes that
    is reflexive and transitive, and kept by one call, is kept by all phases of an element.
  * `endElement_kept`: the same for the end of an element in the interpreter.
-/

namespace LogConfig

/-! ### Calls -/

namespace Call

def action : Call → Action
  | .begin a _ _ _ | .body a _ _ _ _ | .finish a _ _ _ => a

/-- The name of the phase in reports. -/
def phase : Call → String
  | .begin .. => "begin"
  | .body .. => "body"
  | .finish .. => "end"

/-- The session in which a phase was called. -/
def session : Call → Session
  | .begin _ _ _ s => s
  | .body _ _ _ _ s => s
  | .finish _ _ _ s => s

/-- The session that the phase leaves. -/
def left : Call → Session
  | .begin a name attributes s => Phase.left (a.begin name attributes s)
  | .body a name text data s => Phase.left (a.body name text data s).1
  | .finish a name data s => Phase.left (a.finish name data s)

def signal? : Call → Option Signal
  | .begin a name attributes s => Phase.signal? (a.begin name attributes s)
  | .body a name text data s => Phase.signal? (a.body name text data s).1
  | .finish a name data s => Phase.signal? (a.finish name data s)

/-- The action with the data that its later phases are called with. -/
def begun? : Call → Option Invocation
  | .begin a name attributes s =>
    match a.begin name attributes s with
    | .ok data _ => some ⟨a, data⟩
    | .error .. => none
  | .body a name text data s => some ⟨a, (a.body name text data s).2⟩
  | .finish .. => none

theorem begun?_begin_ok {a : Action} {name : String} {attributes : Attributes} {s s' : Session}
    {data : Option ActionData} (h : a.begin name attributes s = .ok data s') :
    (begin a name attributes s).begun? = some ⟨a, data⟩ := by
  rw [begun?, h]

theorem begun?_begin_error {a : Action} {name : String} {attributes : Attributes} {s s' : Session}
    {signal : Signal} (h : a.begin name attributes s = .error signal s') :
    (begin a name attributes s).begun? = none := by
  rw [begun?, h]

/-- The call hands out the data that later phases of the action are called with. -/
inductive Hands : Call → Action → Option ActionData → Prop where
  | begin {a : Action} {name : String} {attributes : Attributes} {s s' : Session}
    {data : Option ActionData} : a.begin name attributes s = .ok data s' →
    Hands (.begin a name attributes s) a data
  | body (a : Action) (name text : String) (data : Option ActionData) (s : Session) :
    Hands (.body a name text data s) a (a.body name text data s).2

theorem hands_of_begun? {call : Call} {v : Invocation} (h : call.begun? = some v) :
    call.Hands v.action v.data ∧ v.action = call.action := by
  cases call with
  | begin a name attributes s =>
    cases hb : a.begin name attributes s with
    | ok data s' =>
      rw [begun?_begin_ok hb] at h
      cases h
      exact ⟨.begin hb, rfl⟩
    | error signal s' =>
      rw [begun?_begin_error hb] at h
      cases h
  | body a name text data s =>
    cases h
    exact ⟨.body .., rfl⟩
  | finish a name data s => cases h

/-- One of the calls handed the data out. -/
def Handed (calls : List Call) (a : Action) (data : Option ActionData) : Prop :=
  ∃ call ∈ calls, call.Hands a data

theorem Handed.mono {calls calls' : List Call} {a : Action} {data : Option ActionData}
    (h : Handed calls a data) (hsuffix : calls <:+ calls') : Handed calls' a data := by
  obtain ⟨call, hcall, hhands⟩ := h
  exact ⟨call, hsuffix.mem hcall, hhands⟩

/-- The call is one of an action in `P`, with data that an earlier call handed out. -/
def Follows (P : Action → Prop) (earlier : List Call) : Call → Prop
  | .begin a _ _ _ => P a
  | .body a _ _ data _ => P a ∧ Handed earlier a data
  | .finish a _ data _ => P a ∧ Handed earlier a data

variable {P Q : Action → Prop} {earlier : List Call} {call : Call}

theorem Follows.mono (h : call.Follows P earlier) (hPQ : ∀ a, P a → Q a) :
    call.Follows Q earlier := by
  cases call with
  | begin a name attributes s => exact hPQ a h
  | body a name text data s => exact h.imp_left (hPQ a)
  | finish a name data s => exact h.imp_left (hPQ a)

theorem Follows.later {later : List Call} (h : call.Follows P earlier)
    (hsuffix : earlier <:+ later) : call.Follows P later := by
  cases call with
  | begin a name attributes s => exact h
  | body a name text data s => exact h.imp_right fun handed => handed.mono hsuffix
  | finish a name data s => exact h.imp_right fun handed => handed.mono hsuffix

theorem Follows.action (h : call.Follows P earlier) : P call.action := by
  cases call with
  | begin a name attributes s => exact h
  | body a name text data s => exact h.1
  | finish a name data s => exact h.1

end Call

namespace Scene

variable {sc : Scene}

/-! ### One call -/

/-- The scene after a phase was called in its session: the call is noted, the failure that it may
have signalled is recorded, and the rules asked for so far are bound. -/
def after (sc : Scene) (call : Call) : Scene :=
  (sc.note call).settle call.action call.phase call.signal? call.left

theorem exists_installRule_eq (sc : Scene) (request : ElementPath × String) :
    ∃ remarks, sc.installRule request =
      { sc with
        rules := (sc.rules.addByName request.1 request.2).1
        session := sc.session.reporting remarks } := by
  unfold installRule
  split
  · next rules h => exact ⟨[], by rw [h, sc.session.reporting_nil]⟩
  · next rules e h => exact ⟨[(Remark.warning _ _).withCause _], by rw [h]; rfl⟩

theorem exists_installRules_eq (sc : Scene) (requests : List (ElementPath × String)) :
    ∃ rules remarks, requests.foldl installRule sc =
        { sc with rules, session := sc.session.reporting remarks } ∧
      (requests = [] → rules = sc.rules) ∧
      ∀ {P : Action → Prop}, OfEveryInstance P → sc.rules.All P → rules.All P := by
  induction requests generalizing sc with
  | nil =>
    exact ⟨sc.rules, [], by rw [sc.session.reporting_nil]; rfl, fun _ => rfl, fun _ h => h⟩
  | cons request rest ih =>
    obtain ⟨remarks, hfirst⟩ := sc.exists_installRule_eq request
    obtain ⟨rules, later, hrest, -, hall⟩ := ih (sc.installRule request)
    refine ⟨rules, remarks ++ later, ?_, fun h => absurd h (List.cons_ne_nil _ _),
      fun hP h => hall hP ?_⟩
    · rw [List.foldl_cons, hrest, hfirst, ← Session.reporting_reporting]
    · rw [hfirst]
      exact h.addByName hP request.1 request.2

/-- At the end of a phase only remarks are added to the session that it left, and its requests for
rules are dropped; the rules bind no actions but instances of those that could be bound before. -/
theorem exists_settle_eq (sc : Scene) (a : Action) (phase : String) (outcome : Option Signal)
    (session : Session) :
    ∃ rules remarks, sc.settle a phase outcome session =
        { sc with rules, session := session.dropRuleRequests.reporting remarks } ∧
      (session.ruleRequests = [] → rules = sc.rules) ∧
      ∀ {P : Action → Prop}, OfEveryInstance P → sc.rules.All P → rules.All P := by
  obtain ⟨first, hrecorded⟩ : ∃ first, sc.settle a phase outcome session =
      session.ruleRequests.foldl installRule
        { sc with session := (session.reporting first).dropRuleRequests } := by
    have quiet : session.reporting [] = session := session.reporting_nil
    rcases outcome with _ | _ | _ | e
    · exact ⟨[], by rw [quiet]; rfl⟩
    · exact ⟨[], by rw [quiet]; rfl⟩
    · exact ⟨[], by rw [quiet]; rfl⟩
    · exact ⟨[(Remark.error _ _).withCause _], rfl⟩
  obtain ⟨rules, later, hinstalled, hnone, hall⟩ := exists_installRules_eq
    { sc with session := (session.reporting first).dropRuleRequests } session.ruleRequests
  refine ⟨rules, first ++ later, ?_, hnone, hall⟩
  rw [hrecorded, hinstalled, ← Session.reporting_reporting]
  rfl

theorem exists_after_eq (sc : Scene) (call : Call) :
    ∃ rules remarks, sc.after call =
        ⟨rules, call.left.dropRuleRequests.reporting remarks, call :: sc.calls⟩ ∧
      (call.left.ruleRequests = [] → rules = sc.rules) ∧
      ∀ {P : Action → Prop}, OfEveryInstance P → sc.rules.All P → rules.All P :=
  (sc.note call).exists_settle_eq call.action call.phase call.signal? call.left

theorem calls_after (sc : Scene) (call : Call) : (sc.after call).calls = call :: sc.calls := by
  obtain ⟨rules, remarks, hafter, -⟩ := sc.exists_after_eq call
  rw [hafter]

/-! ### Calls in a row -/

/-- Calls phases one after the other, each in the session reached, and collects the calls. -/
def callAll {κ : Type} (next : κ → Session → Call) : Scene → List κ → Scene × List Call
  | sc, [] => (sc, [])
  | sc, k :: rest =>
    let call := next k sc.session
    let (sc, calls) := callAll next (sc.after call) rest
    (sc, call :: calls)

section

variable {κ : Type} (next : κ → Session → Call)

theorem callAll_cons (sc : Scene) (k : κ) (rest : List κ) :
    sc.callAll next (k :: rest) =
      (((sc.after (next k sc.session)).callAll next rest).1,
        next k sc.session :: ((sc.after (next k sc.session)).callAll next rest).2) := rfl

theorem calls_callAll (sc : Scene) (ks : List κ) :
    (sc.callAll next ks).1.calls = (sc.callAll next ks).2.reverse ++ sc.calls := by
  induction ks generalizing sc with
  | nil => rfl
  | cons k rest ih =>
    rw [callAll_cons]
    dsimp only
    rw [ih, calls_after, List.reverse_cons, List.append_assoc, List.singleton_append]

theorem mem_callAll {ks : List κ} {call : Call} (h : call ∈ (sc.callAll next ks).2) :
    ∃ k ∈ ks, ∃ s, call = next k s := by
  induction ks generalizing sc with
  | nil => cases h
  | cons k rest ih =>
    rw [callAll_cons] at h
    rcases List.mem_cons.1 h with rfl | h
    · exact ⟨k, List.mem_cons_self, sc.session, rfl⟩
    · obtain ⟨k', hk', hcall⟩ := ih h
      exact ⟨k', List.mem_cons_of_mem k hk', hcall⟩

end

/-! ### The phases of an element -/

theorem beginAll_cons (sc : Scene) (name : String) (attributes : Attributes) (a : Action)
    (rest : List Action) {call : Call} (hcall : call = .begin a name attributes sc.session) :
    sc.beginAll name attributes (a :: rest) =
      (((sc.after call).beginAll name attributes rest).1,
        call.begun?.toList ++ ((sc.after call).beginAll name attributes rest).2.1,
        call.signal?.toList ++ ((sc.after call).beginAll name attributes rest).2.2) := by
  subst hcall
  simp only [beginAll, after, Call.action, Call.phase, Call.signal?, Call.begun?, Call.left]
  cases a.begin name attributes sc.session with
  | ok data session => rfl
  | error signal session => rfl

theorem bodyAll_cons (sc : Scene) (name text : String) (v : Invocation) (rest : List Invocation)
    {call : Call} (hcall : call = .body v.action name text v.data sc.session) :
    sc.bodyAll name text (v :: rest) =
      (((sc.after call).bodyAll name text rest).1,
        call.begun?.toList ++ ((sc.after call).bodyAll name text rest).2.1,
        call.signal?.toList ++ ((sc.after call).bodyAll name text rest).2.2) := by
  subst hcall
  simp only [bodyAll, after, Call.action, Call.phase, Call.signal?, Call.begun?, Call.left]
  rcases v.action.body name text v.data sc.session with ⟨⟨_, session⟩ | ⟨signal, session⟩, data⟩
  · rfl
  · rfl

theorem finishAll_cons (sc : Scene) (name : String) (v : Invocation) (rest : List Invocation)
    {call : Call} (hcall : call = .finish v.action name v.data sc.session) :
    sc.finishAll name (v :: rest) =
      (((sc.after call).finishAll name rest).1,
        call.signal?.toList ++ ((sc.after call).finishAll name rest).2) := by
  subst hcall
  simp only [finishAll, after, Call.action, Call.phase, Call.signal?, Call.left]
  cases v.action.finish name v.data sc.session with
  | ok _ session => rfl
  | error signal session => rfl

/-- The begin phases of an element. -/
abbrev beginCalls (sc : Scene) (name : String) (attributes : Attributes) (actions : List Action) :
    Scene × List Call :=
  sc.callAll (fun a s => .begin a name attributes s) actions

/-- The body phases of an element. -/
abbrev bodyCalls (sc : Scene) (name text : String) (begun : List Invocation) :
    Scene × List Call :=
  sc.callAll (fun v s => .body v.action name text v.data s) begun

/-- The end phases of an element. -/
abbrev endCalls (sc : Scene) (name : String) (begun : List Invocation) : Scene × List Call :=
  sc.callAll (fun v s => .finish v.action name v.data s) begun

theorem beginAll_eq (sc : Scene) (name : String) (attributes : Attributes)
    (actions : List Action) :
    sc.beginAll name attributes actions =
      ((sc.beginCalls name attributes actions).1,
        (sc.beginCalls name attributes actions).2.filterMap Call.begun?,
        (sc.beginCalls name attributes actions).2.filterMap Call.signal?) := by
  induction actions generalizing sc with
  | nil => rfl
  | cons a rest ih =>
    unfold beginCalls at ih ⊢
    rw [beginAll_cons sc name attributes a rest rfl, ih, callAll_cons]
    simp only [List.filterMap_eq_flatMap_toList, List.flatMap_cons]

theorem bodyAll_eq (sc : Scene) (name text : String) (begun : List Invocation) :
    sc.bodyAll name text begun =
      ((sc.bodyCalls name text begun).1,
        (sc.bodyCalls name text begun).2.filterMap Call.begun?,
        (sc.bodyCalls name text begun).2.filterMap Call.signal?) := by
  induction begun generalizing sc with
  | nil => rfl
  | cons v rest ih =>
    unfold bodyCalls at ih ⊢
    rw [bodyAll_cons sc name text v rest rfl, ih, callAll_cons]
    simp only [List.filterMap_eq_flatMap_toList, List.flatMap_cons]

theorem finishAll_eq (sc : Scene) (name : String) (begun : List Invocation) :
    sc.finishAll name begun =
      ((sc.endCalls name begun).1, (sc.endCalls name begun).2.filterMap Call.signal?) := by
  induction begun generalizing sc with
  | nil => rfl
  | cons v rest ih =>
    unfold endCalls at ih ⊢
    rw [finishAll_cons sc name v rest rfl, ih, callAll_cons]
    simp only [List.filterMap_eq_flatMap_toList, List.flatMap_cons]

/-! ### Relations kept by calls -/

variable {P : Action → Prop}

/-- The actions that began are in `P`, with data that was handed out by one of the calls. -/
def Began (P : Action → Prop) (calls : List Call) (begun : List Invocation) : Prop :=
  ∀ v ∈ begun, P v.action ∧ Call.Handed calls v.action v.data

theorem Began.mono {calls calls' : List Call} {begun : List Invocation}
    (h : Began P calls begun) (hsuffix : calls <:+ calls') : Began P calls' begun :=
  fun v hv => ⟨(h v hv).1, (h v hv).2.mono hsuffix⟩

/-- A relation between scenes, with the calls made from one to the other, earliest first. It is
reflexive and transitive and kept by one call of an action in `P`. -/
structure Kept (P : Action → Prop) (R : Scene → List Call → Scene → Prop) : Prop where
  refl : ∀ sc, R sc [] sc
  trans : ∀ {sc sc' sc'' calls later}, R sc calls sc' → R sc' later sc'' →
    R sc (calls ++ later) sc''
  call : ∀ {sc : Scene} {call : Call}, call.session = sc.session → call.Follows P sc.calls →
    R sc [call] (sc.after call)

section

variable {κ : Type} {next : κ → Session → Call} {ks : List κ}

theorem began_callAll (sc : Scene) (h : ∀ k ∈ ks, ∀ s, P (next k s).action) :
    Began P (sc.callAll next ks).1.calls ((sc.callAll next ks).2.filterMap Call.begun?) := by
  intro v hv
  obtain ⟨call, hcall, hbegun⟩ := List.mem_filterMap.1 hv
  obtain ⟨hhands, haction⟩ := Call.hands_of_begun? hbegun
  obtain ⟨k, hk, s, rfl⟩ := mem_callAll next hcall
  rw [haction]
  refine ⟨h k hk s, _, ?_, haction ▸ hhands⟩
  rw [calls_callAll]
  exact List.mem_append_left _ (List.mem_reverse.2 hcall)

variable {R : Scene → List Call → Scene → Prop}

theorem Kept.callAll (hR : Kept P R) (hnext : ∀ k s, (next k s).session = s) {sc : Scene}
    (h : ∀ k ∈ ks, ∀ s, (next k s).Follows P sc.calls) :
    R sc (sc.callAll next ks).2 (sc.callAll next ks).1 := by
  induction ks generalizing sc with
  | nil => exact hR.refl sc
  | cons k rest ih =>
    have first := hR.call (hnext k sc.session) (h k List.mem_cons_self sc.session)
    -- what was handed out before the first call is handed out for the later ones, too
    refine hR.trans first (ih fun k' hk' s => ?_)
    rw [calls_after]
    exact (h k' (List.mem_cons_of_mem k hk') s).later (List.suffix_cons _ _)

end

namespace Kept

variable {R : Scene → List Call → Scene → Prop} (hR : Kept P R)
include hR

theorem beginAll (sc : Scene) (name : String) (attributes : Attributes) {actions : List Action}
    (ha : ∀ a ∈ actions, P a) :
    ∃ calls, R sc calls (sc.beginAll name attributes actions).1 ∧
      (sc.beginAll name attributes actions).2.2 = calls.filterMap Call.signal? ∧
      Began P (sc.beginAll name attributes actions).1.calls
        (sc.beginAll name attributes actions).2.1 := by
  rw [beginAll_eq]
  exact ⟨_, hR.callAll (fun _ _ => rfl) fun a hmem _ => ha a hmem, rfl,
    began_callAll sc fun a hmem _ => ha a hmem⟩

theorem bodyAll (sc : Scene) (name text : String) {begun : List Invocation}
    (hv : Began P sc.calls begun) :
    ∃ calls, R sc calls (sc.bodyAll name text begun).1 ∧
      (sc.bodyAll name text begun).2.2 = calls.filterMap Call.signal? ∧
      Began P (sc.bodyAll name text begun).1.calls (sc.bodyAll name text begun).2.1 := by
  rw [bodyAll_eq]
  exact ⟨_, hR.callAll (fun _ _ => rfl) fun v hmem _ => hv v hmem, rfl,
    began_callAll sc fun v hmem _ => (hv v hmem).1⟩

theorem finishAll (sc : Scene) (name : String) {begun : List Invocation}
    (hv : Began P sc.calls begun) :
    ∃ calls, R sc calls (sc.finishAll name begun).1 ∧
      (sc.finishAll name begun).2 = calls.filterMap Call.signal? := by
  rw [finishAll_eq]
  exact ⟨_, hR.callAll (fun _ _ => rfl) fun v hmem _ => hv v hmem, rfl⟩

theorem close (sc : Scene) (name text : String) {begun : List Invocation}
    (hv : Began P sc.calls begun) :
    ∃ calls, R sc calls (sc.close name text begun).1 ∧
      (sc.close name text begun).2 = calls.filterMap Call.signal? := by
  unfold Scene.close
  split
  · exact hR.finishAll sc name hv
  · obtain ⟨bodies, htold, hsignals, hv'⟩ := hR.bodyAll sc name (Text.trim text) hv
    obtain ⟨ends, hended, hlater⟩ := hR.finishAll _ name hv'
    refine ⟨bodies ++ ends, hR.trans htold hended, ?_⟩
    dsimp only
    rw [hsignals, hlater, List.filterMap_append]

end Kept

end Scene

/-! ### The end of an element -/

namespace Interpreter

variable {P : Action → Prop} {R : Scene → List Call → Scene → Prop}

/-- Closing an element leads to the scene in which its phases leave it; only their signals move the
state. -/
theorem closeFrame_kept (hR : Scene.Kept P R) (i : Interpreter) (name : String) {frame : Frame}
    (hv : Scene.Began P i.calls frame.invocations) (delivers : Bool) :
    ∃ sc calls, R i.scene calls sc ∧
      i.closeFrame name frame delivers =
        { i.withScene sc with
          state := (calls.filterMap Call.signal?).foldl (afterLate i.path) i.state } := by
  cases delivers with
  | true =>
    obtain ⟨calls, hkept, hsignals⟩ := hR.close i.scene name frame.text hv
    refine ⟨_, calls, hkept, ?_⟩
    rw [closeFrame_eq, ← hsignals]
  | false =>
    obtain ⟨calls, hkept, hsignals⟩ := hR.finishAll i.scene name hv
    refine ⟨_, calls, hkept, ?_⟩
    rw [closeFrame_false, ← hsignals]

theorem endElement_kept (hR : Scene.Kept P R) {i : Interpreter} {frame : Frame}
    {outer : List Frame} (hf : i.frames = frame :: outer)
    (hv : Scene.Began P i.calls frame.invocations) (name : String) :
    ∃ sc calls, R i.scene calls sc ∧
      i.endElement name =
        { i.withScene sc with
          frames := outer
          state := (calls.filterMap Call.signal?).foldl (afterLate i.path)
            (if i.state.marker? = some i.path then .parsing else i.state)
          path := i.path.parent } := by
  let resumes := decide (i.state.marker? = some i.path)
  let popped : Interpreter :=
    { i with frames := outer, state := if resumes then .parsing else i.state }
  obtain ⟨sc, calls, hkept, hclosed⟩ :=
    closeFrame_kept hR popped name hv (resumes || !i.state.isSkipping)
  refine ⟨sc, calls, hkept, ?_⟩
  unfold endElement
  rw [hf]
  dsimp only
  rw [show popped.closeFrame name frame (resumes || !i.state.isSkipping) = _ from hclosed]
  simp only [popped, resumes, decide_eq_true_eq]
  rfl

end Interpreter
end LogConfig
