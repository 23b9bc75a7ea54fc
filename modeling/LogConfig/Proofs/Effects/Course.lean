import LogConfig.Proofs.Effects.Trace

/-
  The course of a session: every state it goes through, in order. These are the states before each
  callback, those in which a phase is called, and the one at the end. Between two of them the
  session is changed by phases and by what is noted around them. So a relation that each phase of
  each action and every note keeps holds between each state and every later one
  (`Configurator.course_pairwise`), for instance that the session was changed in the known ways
  only.
-/

namespace LogConfig

/-- The data that a phase was called with are in `D`. -/
def Call.Carries (D : Action → Option ActionData → Prop) : Call → Prop
  | .begin _ _ _ _ => True
  | .body a _ _ data _ => D a data
  | .finish a _ data _ => D a data

/-- A relation between earlier and later sessions that what is noted around the phases keeps, and
a property of what actions keep for an element that is the same for all their instances. -/
structure Session.Passage (R : Session → Session → Prop) (D : Action → Option ActionData → Prop) :
    Prop where
  refl : ∀ s, R s s
  trans : ∀ {s s' s''}, R s s' → R s' s'' → R s s''
  aside : ∀ {s s' : Session}, s'.graph = s.graph → s'.appenderBag = s.appenderBag →
    s'.classes = s.classes → s'.stack = s.stack → R s s'
  copies : ∀ (a : Action) (n : Nat) (data : Option ActionData),
    D { a with instanceId := n } data ↔ D a data

/-- Every phase of the action leads from a session to one that is related to it. The action begins
with data in `D` only, and its other phases are to be called with such data. -/
structure Action.Within (R : Session → Session → Prop) (D : Action → Option ActionData → Prop)
    (a : Action) : Prop where
  begin : ∀ name attributes (s : Session), R s (Phase.left (a.begin name attributes s)) ∧
    ∀ data s', a.begin name attributes s = .ok data s' → D a data
  body : ∀ name text data (s : Session), D a data →
    R s (Phase.left (a.body name text data s).1) ∧ D a (a.body name text data s).2
  finish : ∀ name data (s : Session), D a data → R s (Phase.left (a.finish name data s))

variable {R : Session → Session → Prop} {D : Action → Option ActionData → Prop}

theorem Action.Within.instance {a : Action} (h : a.Within R D) (hp : Session.Passage R D) (n : Nat) :
    { a with instanceId := n }.Within R D := by
  refine ⟨fun name attributes s => ?_, fun name text data s hdata => ?_,
    fun name data s hdata => h.finish name data s ((hp.copies a n data).1 hdata)⟩
  · obtain ⟨hleft, hbegun⟩ := h.begin name attributes s
    exact ⟨hleft, fun data s' hs' => (hp.copies a n data).2 (hbegun data s' hs')⟩
  · obtain ⟨hleft, hkept⟩ := h.body name text data s ((hp.copies a n data).1 hdata)
    exact ⟨hleft, (hp.copies a n _).2 hkept⟩

theorem Action.Confined.within {a : Action} (h : a.Confined) :
    a.Within Session.Becomes fun _ _ => True :=
  ⟨fun name attributes s => ⟨h.begin name attributes s, fun _ _ _ => trivial⟩,
    fun name text data s _ => ⟨h.body name text data s, trivial⟩,
    fun name data s _ => h.finish name data s⟩

theorem Session.passage_becomes : Session.Passage Session.Becomes fun _ _ => True :=
  ⟨fun _ => .refl, fun h h' => h.trans h', fun hg hb hc _ => becomes_aside hg hb hc,
    fun _ _ _ => Iff.rfl⟩

/-! ### Traces -/

/-- Along a trace the session was led along the relation. So it was between the calls made on the
way, the latest first, before the first of them and after the last. -/
structure Session.Passes (R : Session → Session → Prop) (D : Action → Option ActionData → Prop)
    (calls₀ : List Call) (s₀ : Session) (calls : List Call) (s : Session) : Prop where
  session : R s₀ s
  handed : ∀ call ∈ calls, ∀ a data, call.Hands a data → D a data
  made : ∃ made, calls = made ++ calls₀ ∧
    (∀ call ∈ made, R s₀ call.session ∧ R call.session s ∧ call.Carries D) ∧
    made.Pairwise fun later earlier => R earlier.session later.session

theorem Call.Follows.within {call : Call} {earlier : List Call}
    (h : call.Follows (Action.Within R D) earlier)
    (hdata : ∀ call ∈ earlier, ∀ a data, call.Hands a data → D a data) :
    R call.session call.left ∧ call.Carries D ∧ ∀ a data, call.Hands a data → D a data := by
  cases call with
  | begin a name attributes s =>
    obtain ⟨hleft, hbegun⟩ := Action.Within.begin h name attributes s
    refine ⟨hleft, trivial, fun _ data hhands => ?_⟩
    cases hhands with
    | begin hb => exact hbegun data _ hb
  | body a name text data s =>
    obtain ⟨ha, call, hcall, hhands⟩ := h
    have hcarried := hdata call hcall a data hhands
    obtain ⟨hleft, hkept⟩ := ha.body name text data s hcarried
    refine ⟨hleft, hcarried, fun _ data hhands => ?_⟩
    cases hhands
    exact hkept
  | finish a name data s =>
    obtain ⟨ha, call, hcall, hhands⟩ := h
    have hcarried := hdata call hcall a data hhands
    exact ⟨ha.finish name data s hcarried, hcarried, nofun⟩

theorem Session.Trace.passes (hp : Session.Passage R D) {calls₀ calls : List Call}
    {s₀ s : Session} (h : Session.Trace (Action.Within R D) calls₀ s₀ calls s)
    (hdata : ∀ call ∈ calls₀, ∀ a data, call.Hands a data → D a data) :
    Session.Passes R D calls₀ s₀ calls s := by
  induction h with
  | nil =>
    exact ⟨hp.refl _, hdata, [], rfl, fun _ hcall => absurd hcall List.not_mem_nil, .nil⟩
  | @aside calls s s' _ haside ih =>
    obtain ⟨hsession, hhanded, made, hcalls, hmade, hpairs⟩ := ih
    have hlast : R s s' := hp.aside haside.graph haside.bag haside.classes haside.stack
    refine ⟨hp.trans hsession hlast, hhanded, made, hcalls, fun call hcall => ?_, hpairs⟩
    obtain ⟨hbefore, hafter, hcarries⟩ := hmade call hcall
    exact ⟨hbefore, hp.trans hafter hlast, hcarries⟩
  | @call calls call _ hfollows ih =>
    obtain ⟨hsession, hhanded, made, hcalls, hmade, hpairs⟩ := ih
    obtain ⟨hleft, hcarries, hhands⟩ := hfollows.within hhanded
    refine ⟨hp.trans hsession hleft, List.forall_mem_cons.2 ⟨hhands, hhanded⟩, call :: made,
      by rw [hcalls, List.cons_append], List.forall_mem_cons.2 ⟨?_, fun other hother => ?_⟩,
      List.pairwise_cons.2 ⟨fun other hother => (hmade other hother).2.1, hpairs⟩⟩
    · exact ⟨hsession, hleft, hcarries⟩
    · obtain ⟨hbefore, hafter, hdata⟩ := hmade other hother
      exact ⟨hbefore, hp.trans hafter hleft, hdata⟩

namespace Interpreter

/-- The calls that an event leads to, in order. -/
def callsOf (i : Interpreter) (e : DocumentEvent) : List Call :=
  ((i.step e).calls.take ((i.step e).calls.length - i.calls.length)).reverse

/-- The sessions of a run in order: the one before each event, those in which the event calls
phases, and the one at the end. -/
def course (i : Interpreter) : List DocumentEvent → List Session
  | [] => [i.session]
  | e :: es => i.session :: (i.callsOf e).map Call.session ++ (i.step e).course es

theorem callsOf_eq {i : Interpreter} {e : DocumentEvent} {made : List Call}
    (h : (i.step e).calls = made ++ i.calls) : i.callsOf e = made.reverse := by
  unfold callsOf
  rw [h, List.length_append, Nat.add_sub_cancel, List.take_left]

theorem head_mem_course (i : Interpreter) (es : List DocumentEvent) : i.session ∈ i.course es := by
  cases es with
  | nil => exact List.mem_cons_self
  | cons e es => exact List.mem_cons_self

/-- Each session of a run has a trace. -/
theorem course_traces {P : Action → Prop} (hP : OfEveryInstance P) {i : Interpreter}
    (h : i.Acts P) {es : List DocumentEvent} (he : .endDocument ∉ es) :
    ∀ s ∈ i.course es, ∃ calls, calls <:+ (i.run es).calls ∧
      Session.Trace P i.calls i.session calls s := by
  induction es generalizing i with
  | nil =>
    intro s hs
    rw [List.mem_singleton.1 hs]
    exact ⟨i.calls, List.suffix_refl _, .nil⟩
  | cons e es ih =>
    have hhead : e ≠ .endDocument := (List.ne_of_not_mem_cons he).symm
    have hrest : .endDocument ∉ es := List.not_mem_of_not_mem_cons he
    obtain ⟨hstep, htrace⟩ := step_traces hP h hhead
    have hafter := (run_traces hP hstep hrest).trace.suffix
    intro s hs
    unfold course at hs
    rw [run_cons]
    rcases List.mem_append.1 hs with hs | hs
    · rcases List.mem_cons.1 hs with rfl | hs
      · exact ⟨i.calls, htrace.suffix.trans hafter, .nil⟩
      · obtain ⟨made, hcalls⟩ := htrace.suffix
        obtain ⟨call, hcall, rfl⟩ := List.mem_map.1 hs
        rw [callsOf_eq hcalls.symm, List.mem_reverse] at hcall
        obtain ⟨later, earlier, rfl⟩ := List.append_of_mem hcall
        have hsuffix : call :: (earlier ++ i.calls) <:+ (i.step e).calls :=
          ⟨later, by rw [← hcalls]; simp⟩
        have hnew : i.calls <:+ earlier ++ i.calls := List.suffix_append _ _
        exact ⟨earlier ++ i.calls, ((List.suffix_cons call _).trans hsuffix).trans hafter,
          (htrace.of_suffix hsuffix hnew).1⟩
    · obtain ⟨calls, hcalls, hlater⟩ := ih hstep hrest s hs
      exact ⟨calls, hcalls, htrace.trans hlater⟩

variable (hp : Session.Passage R D)
include hp

/-- Each session of a run is related to every later one. -/
theorem course_pairwise {i : Interpreter} (h : i.Acts (Action.Within R D))
    (hdata : ∀ call ∈ i.calls, ∀ a data, call.Hands a data → D a data)
    {es : List DocumentEvent} (he : .endDocument ∉ es) :
    (i.course es).Pairwise R ∧
      (∀ s ∈ i.course es, R i.session s ∧ R s (i.run es).session) := by
  induction es generalizing i with
  | nil =>
    refine ⟨List.pairwise_singleton _ _, fun s hs => ?_⟩
    rw [List.mem_singleton.1 hs]
    exact ⟨hp.refl _, hp.refl _⟩
  | cons e es ih =>
    have hhead : e ≠ .endDocument := (List.ne_of_not_mem_cons he).symm
    obtain ⟨hstep, htrace⟩ := step_traces (fun _ n ha => ha.instance hp n) h hhead
    obtain ⟨hsession, hhanded, made, hcalls, hmade, hpairs⟩ := htrace.passes hp hdata
    obtain ⟨hlater, hbounds⟩ := ih hstep hhanded (List.not_mem_of_not_mem_cons he)
    have hmade' : ∀ s ∈ (i.callsOf e).map Call.session,
        R i.session s ∧ R s (i.step e).session := by
      intro s hs
      obtain ⟨call, hcall, rfl⟩ := List.mem_map.1 hs
      rw [callsOf_eq hcalls, List.mem_reverse] at hcall
      exact ⟨(hmade call hcall).1, (hmade call hcall).2.1⟩
    have hafter : ∀ s ∈ (i.step e).course es, R i.session s ∧
        R s ((i.step e).run es).session := fun s hs =>
      ⟨hp.trans hsession (hbounds s hs).1, (hbounds s hs).2⟩
    have hrest := (hbounds _ ((i.step e).head_mem_course es)).2
    have hwithin : ((i.callsOf e).map Call.session).Pairwise R := by
      rw [callsOf_eq hcalls, List.pairwise_map, List.pairwise_reverse]
      exact hpairs
    unfold course
    rw [run_cons, List.cons_append]
    refine ⟨List.pairwise_cons.2 ⟨fun s hs => ?_, List.pairwise_append.2 ⟨hwithin, hlater,
      fun s hs t ht => hp.trans (hmade' s hs).2 (hbounds t ht).1⟩⟩, fun s hs => ?_⟩
    · rcases List.mem_append.1 hs with hs | hs
      · exact (hmade' s hs).1
      · exact (hafter s hs).1
    · rcases List.mem_cons.1 hs with rfl | hs
      · exact ⟨hp.refl _, hp.trans hsession hrest⟩
      · rcases List.mem_append.1 hs with hs | hs
        · exact ⟨(hmade' s hs).1, hp.trans (hmade' s hs).2 hrest⟩
        · exact hafter s hs

end Interpreter

namespace Configurator

open Interpreter

/-- Every state that a session goes through, in order, the one that it ends in last. -/
def course (c : Configurator) (g : Graph) (source : String) : List Session :=
  (c.interpreter g).course (c.callbacks g source) ++ [c.run g source]

/-- The calls of phases in a session, the latest first. -/
def calls (c : Configurator) (g : Graph) (source : String) : List Call :=
  ((c.interpreter g).run (c.callbacks g source)).calls

theorem aside_run (c : Configurator) (g : Graph) (source : String) :
    ((c.interpreter g).run (c.callbacks g source)).session.Aside (c.run g source) := by
  rw [← session_run_events c g source]
  unfold Configurator.run finish
  split
  · exact ⟨rfl, rfl, rfl, rfl⟩
  · exact ⟨rfl, rfl, rfl, rfl⟩

/-- Each state of a session has a trace from its start. -/
theorem course_traces {P : Action → Prop} (hP : OfEveryInstance P) (c : Configurator) {g : Graph}
    (h : (c.interpreter g).Acts P) (source : String) :
    ∀ s ∈ c.course g source, ∃ calls, calls <:+ c.calls g source ∧
      Session.Trace P [] (c.session g) calls s := by
  intro s hs
  have hend := endDocument_not_mem_callbacks c g source
  rcases List.mem_append.1 hs with hs | hs
  · exact Interpreter.course_traces hP h hend s hs
  · rw [List.mem_singleton.1 hs]
    exact ⟨c.calls g source, List.suffix_refl _,
      (run_traces hP h hend).trace.aside (c.aside_run g source)⟩

/-- Each call of a session has a trace from the start, and follows the calls before it. -/
theorem calls_traces {P : Action → Prop} (hP : OfEveryInstance P) (c : Configurator) {g : Graph}
    (h : (c.interpreter g).Acts P) (source : String) :
    ∀ call ∈ c.calls g source, ∃ earlier, call :: earlier <:+ c.calls g source ∧
      Session.Trace P [] (c.session g) earlier call.session ∧ call.Follows P earlier := by
  intro call hcall
  have htrace := (run_traces hP h (endDocument_not_mem_callbacks c g source)).trace
  obtain ⟨later, earlier, heq⟩ := List.append_of_mem hcall
  have hsuffix : call :: earlier <:+ c.calls g source := ⟨later, heq.symm⟩
  exact ⟨earlier, hsuffix, htrace.of_suffix hsuffix (List.nil_suffix)⟩

variable (hp : Session.Passage R D)
include hp

theorem within_interpreter (hb : ∀ entry ∈ Actions.builtins, entry.1.Within R D)
    (c : Configurator) (hc : c.actions = Actions.registry) (g : Graph) :
    (c.interpreter g).Acts (Action.Within R D) :=
  c.acts_interpreter (fun _ n ha => ha.instance hp n) hb hc g

/-- Each state of a session is related to every later one. -/
theorem course_pairwise (c : Configurator) {g : Graph}
    (h : (c.interpreter g).Acts (Action.Within R D)) (source : String) :
    (c.course g source).Pairwise R ∧
      ∀ s ∈ c.course g source, R (c.session g) s ∧ R s (c.run g source) := by
  obtain ⟨hpairs, hbounds⟩ :=
    Interpreter.course_pairwise hp h (fun _ hcall => absurd hcall List.not_mem_nil)
      (endDocument_not_mem_callbacks c g source)
  have hend : R ((c.interpreter g).run (c.callbacks g source)).session (c.run g source) :=
    let haside := c.aside_run g source
    hp.aside haside.graph haside.bag haside.classes haside.stack
  have hbounds' : ∀ s ∈ (c.interpreter g).course (c.callbacks g source),
      R (c.session g) s ∧ R s (c.run g source) := fun s hs =>
    ⟨(hbounds s hs).1, hp.trans (hbounds s hs).2 hend⟩
  have hfirst := (hbounds' _ (head_mem_course _ _)).2
  unfold course
  refine ⟨List.pairwise_append.2 ⟨hpairs, List.pairwise_singleton _ _, fun s hs t ht => ?_⟩,
    fun s hs => ?_⟩
  · rw [List.mem_singleton.1 ht]
    exact (hbounds' s hs).2
  · rcases List.mem_append.1 hs with hs | hs
    · exact hbounds' s hs
    · rw [List.mem_singleton.1 hs]
      exact ⟨hfirst, hp.refl _⟩

/-- Every call is made in a session that the first one leads to, with data in `D`. -/
theorem calls_within (c : Configurator) {g : Graph}
    (h : (c.interpreter g).Acts (Action.Within R D)) (source : String) :
    ∀ call ∈ c.calls g source, R (c.session g) call.session ∧
      call.Carries D := by
  have htrace := (run_traces (fun _ n ha => ha.instance hp n) h
    (endDocument_not_mem_callbacks c g source)).trace
  obtain ⟨-, -, made, hcalls, hmade, -⟩ :=
    htrace.passes hp fun _ hcall => absurd hcall List.not_mem_nil
  intro call hcall
  rw [show c.calls g source = made ++ [] from hcalls, List.append_nil] at hcall
  exact ⟨(hmade call hcall).1, (hmade call hcall).2.2⟩

end Configurator

/-- Every state of a session with the built-in actions becomes every later one by changes of the
known kinds. -/
theorem Configurator.course_becomes (c : Configurator) (hc : c.actions = Actions.registry)
    (g : Graph) (source : String) :
    (c.course g source).Pairwise Session.Becomes ∧
      ∀ s ∈ c.course g source, (c.session g).Becomes s ∧ s.Becomes (c.run g source) := by
  have hbuiltins : ∀ entry ∈ Actions.builtins, entry.1.Within Session.Becomes fun _ _ => True :=
    fun entry hentry => (Actions.builtins_confined entry hentry).within
  exact course_pairwise Session.passage_becomes c
    (within_interpreter Session.passage_becomes hbuiltins c hc g) source

end LogConfig
