import LogConfig.Proofs.Stack.Elements

/-
  The history of calls. An interpreter with arbitrary actions is given callbacks in any order,
  balanced or not, and then the end of the document. `History` says which calls of phases belong
  to which element: the begins stand at its start, the bodies and the ends at its end, and the
  calls of the elements inside stand between them. Every action that began has one end, with the
  data of its begin as its own body left them, and an action that did not begin has nothing more.

  Proved:
  * `startElement_calls`, `endElement_calls`: the calls of one callback.
  * `run_history`: the calls of nested callbacks, by induction on the nesting.
  * `calls_history`: the calls of any callbacks up to the end of the document, and after it.
-/

namespace LogConfig

/-! ### The calls of one element -/

/-- Begin phases for an element, and the actions that they left begun, in the same order. One that
gives a signal leaves none. -/
inductive Opened (name : String) (attributes : Attributes) :
    List Call → List Invocation → Prop where
  | nil : Opened name attributes [] []
  | refused {a : Action} {s s' : Session} {signal : Signal} {begins : List Call}
      {begun : List Invocation} :
    a.begin name attributes s = .error signal s' → Opened name attributes begins begun →
    Opened name attributes (.begin a name attributes s :: begins) begun
  | kept {a : Action} {s s' : Session} {data : Option ActionData} {begins : List Call}
      {begun : List Invocation} :
    a.begin name attributes s = .ok data s' → Opened name attributes begins begun →
    Opened name attributes (.begin a name attributes s :: begins) (⟨a, data⟩ :: begun)

/-- Body phases of the actions begun for an element, one for each in order, and the same actions
with their data afterwards. -/
inductive Told (closing text : String) :
    List Invocation → List Call → List Invocation → Prop where
  | nil : Told closing text [] [] []
  | cons {v : Invocation} {s : Session} {begun told : List Invocation} {bodies : List Call} :
    Told closing text begun bodies told →
    Told closing text (v :: begun) (.body v.action closing text v.data s :: bodies)
      ({ v with data := (v.action.body closing text v.data s).2 } :: told)

/-- End phases of the actions of an element, one for each in order, with the data they hold. -/
inductive Ended (closing : String) : List Invocation → List Call → Prop where
  | nil : Ended closing [] []
  | cons {v : Invocation} {s : Session} {begun : List Invocation} {ends : List Call} :
    Ended closing begun ends → Ended closing (v :: begun) (.finish v.action closing v.data s :: ends)

/-- The calls at the end of an element: the bodies, where there is text to tell, and the ends. -/
inductive Closed (closing : String) (begun : List Invocation) : List Call → Prop where
  | silent {ends : List Call} : Ended closing begun ends → Closed closing begun ends
  | told {text : String} {bodies ends : List Call} {told : List Invocation} :
    Told closing text begun bodies told → Ended closing told ends →
    Closed closing begun (bodies ++ ends)

/-- The calls at the end of an element of this text: the bodies, which are given the text, unless
it is empty, and the ends. -/
inductive ClosedWith (closing text : String) (begun : List Invocation) : List Call → Prop where
  | silent {ends : List Call} : text = "" → Ended closing begun ends →
    ClosedWith closing text begun ends
  | told {bodies ends : List Call} {told : List Invocation} : text ≠ "" →
    Told closing text begun bodies told → Ended closing told ends →
    ClosedWith closing text begun (bodies ++ ends)

theorem ClosedWith.closed {closing text : String} {begun : List Invocation} {calls : List Call}
    (h : ClosedWith closing text begun calls) : Closed closing begun calls := by
  cases h with
  | silent _ hended => exact .silent hended
  | told _ htold hended => exact .told htold hended

/-- The calls that belong to callbacks in which every element that starts also ends: those of an
element enclose those of the elements inside it. No other callback calls anything. An end tag may
close nothing where no element is open around the callbacks. -/
inductive History : Bool → List DocumentEvent → List Call → Prop where
  | nil {outermost : Bool} : History outermost [] []
  | flat {outermost : Bool} {e : DocumentEvent} {rest : List DocumentEvent} {calls : List Call} :
    e.isFlat = true → History outermost rest calls → History outermost (e :: rest) calls
  | stray {closing : String} {rest : List DocumentEvent} {calls : List Call} :
    History true rest calls → History true (.endElement closing :: rest) calls
  | element {outermost : Bool} {name closing : String} {attributes : Attributes}
      {inside rest : List DocumentEvent} {begins within ends after : List Call}
      {begun : List Invocation} :
    Opened name attributes begins begun → History false inside within →
    Closed closing begun ends → History outermost rest after →
    History outermost (.startElement name attributes :: (inside ++ .endElement closing :: rest))
      (begins ++ within ++ ends ++ after)

namespace Scene

theorem calls_actionsFor (implicit : List ImplicitAction) (path : ElementPath)
    (attributes : Attributes) (sc : Scene) :
    (sc.actionsFor implicit path attributes).1.calls = sc.calls := by
  unfold actionsFor
  split
  · rfl
  · split
    · rfl
    · rfl

theorem opened_beginCalls (name : String) (attributes : Attributes) (actions : List Action)
    (sc : Scene) :
    Opened name attributes (sc.beginCalls name attributes actions).2
      ((sc.beginCalls name attributes actions).2.filterMap Call.begun?) := by
  induction actions generalizing sc with
  | nil => exact .nil
  | cons a rest ih =>
    have later := ih (sc.after (.begin a name attributes sc.session))
    unfold beginCalls at later ⊢
    rw [callAll_cons]
    cases hb : a.begin name attributes sc.session with
    | ok data session =>
      rw [List.filterMap_cons_some (Call.begun?_begin_ok hb)]
      exact .kept hb later
    | error signal session =>
      rw [List.filterMap_cons_none (Call.begun?_begin_error hb)]
      exact .refused hb later

theorem told_bodyCalls (closing text : String) (begun : List Invocation) (sc : Scene) :
    Told closing text begun (sc.bodyCalls closing text begun).2
      ((sc.bodyCalls closing text begun).2.filterMap Call.begun?) := by
  induction begun generalizing sc with
  | nil => exact .nil
  | cons v rest ih => exact .cons (ih (sc.after (.body v.action closing text v.data sc.session)))

theorem ended_endCalls (closing : String) (begun : List Invocation) (sc : Scene) :
    Ended closing begun (sc.endCalls closing begun).2 := by
  induction begun generalizing sc with
  | nil => exact .nil
  | cons v rest ih => exact .cons (ih (sc.after (.finish v.action closing v.data sc.session)))

theorem beginAll_calls (name : String) (attributes : Attributes) (actions : List Action)
    (sc : Scene) :
    ∃ begins, Opened name attributes begins (sc.beginAll name attributes actions).2.1 ∧
      (sc.beginAll name attributes actions).1.calls = begins.reverse ++ sc.calls := by
  rw [beginAll_eq]
  exact ⟨_, opened_beginCalls name attributes actions sc, calls_callAll _ sc actions⟩

theorem bodyAll_calls (closing text : String) (begun : List Invocation) (sc : Scene) :
    ∃ bodies, Told closing text begun bodies (sc.bodyAll closing text begun).2.1 ∧
      (sc.bodyAll closing text begun).1.calls = bodies.reverse ++ sc.calls := by
  rw [bodyAll_eq]
  exact ⟨_, told_bodyCalls closing text begun sc, calls_callAll _ sc begun⟩

theorem finishAll_calls (closing : String) (begun : List Invocation) (sc : Scene) :
    ∃ ends, Ended closing begun ends ∧
      (sc.finishAll closing begun).1.calls = ends.reverse ++ sc.calls := by
  rw [finishAll_eq]
  exact ⟨_, ended_endCalls closing begun sc, calls_callAll _ sc begun⟩

theorem close_calls (closing text : String) (begun : List Invocation) (sc : Scene) :
    ∃ calls, ClosedWith closing (Text.trim text) begun calls ∧
      (sc.close closing text begun).1.calls = calls.reverse ++ sc.calls := by
  unfold close
  split
  · next hempty =>
    obtain ⟨ends, hended, hcalls⟩ := finishAll_calls closing begun sc
    exact ⟨ends, .silent hempty hended, hcalls⟩
  · next htext =>
    obtain ⟨bodies, htold, hbodies⟩ := bodyAll_calls closing (Text.trim text) begun sc
    generalize sc.bodyAll closing (Text.trim text) begun = found at htold hbodies ⊢
    obtain ⟨sc', told, signals⟩ := found
    obtain ⟨ends, hended, hends⟩ := finishAll_calls closing told sc'
    refine ⟨bodies ++ ends, .told htext htold hended, ?_⟩
    dsimp only at hbodies ⊢
    rw [hends, hbodies, List.reverse_append, List.append_assoc]

end Scene

namespace Interpreter

/-! ### The calls of one callback -/

/-- A start calls the begin phases of its element. -/
theorem startElement_calls (i : Interpreter) (name : String) (attributes : Attributes) :
    ∃ begins begun, Opened name attributes begins begun ∧
      (i.startElement name attributes).openActions = begun :: i.openActions ∧
      (i.startElement name attributes).calls = begins.reverse ++ i.calls := by
  cases hs : i.state.isSkipping with
  | true =>
    rw [startElement_skipping hs]
    exact ⟨[], [], .nil, rfl, rfl⟩
  | false =>
    rw [startElement_eq hs]
    have hcalls := Scene.calls_actionsFor i.implicit (i.path.push name) attributes i.scene
    generalize i.scene.actionsFor i.implicit (i.path.push name) attributes = found at hcalls ⊢
    obtain ⟨sc, actions⟩ := found
    dsimp only at hcalls ⊢
    obtain ⟨begins, hopened, hcalls'⟩ := Scene.beginAll_calls name attributes actions sc
    generalize sc.beginAll name attributes actions = found at hopened hcalls' ⊢
    obtain ⟨sc', begun, signals⟩ := found
    exact ⟨begins, begun, hopened, rfl, hcalls'.trans (congrArg (begins.reverse ++ ·) hcalls)⟩

theorem closeFrame_calls (i : Interpreter) (closing : String) (frame : Frame) (delivers : Bool) :
    ∃ calls, Closed closing frame.invocations calls ∧
      (i.closeFrame closing frame delivers).calls = calls.reverse ++ i.calls := by
  cases delivers with
  | true =>
    obtain ⟨calls, hclosed, hcalls⟩ :=
      Scene.close_calls closing frame.text frame.invocations i.scene
    rw [closeFrame_eq]
    generalize i.scene.close closing frame.text frame.invocations = told at hcalls ⊢
    exact ⟨calls, hclosed.closed, hcalls⟩
  | false =>
    obtain ⟨ends, hended, hcalls⟩ := Scene.finishAll_calls closing frame.invocations i.scene
    rw [closeFrame_false]
    generalize i.scene.finishAll closing frame.invocations = told at hcalls ⊢
    exact ⟨ends, .silent hended, hcalls⟩

/-- An end calls the body and end phases of the innermost open element. -/
theorem endElement_calls {i : Interpreter} {begun : List Invocation}
    {outer : List (List Invocation)} (ho : i.openActions = begun :: outer) (closing : String) :
    ∃ calls, Closed closing begun calls ∧ (i.endElement closing).openActions = outer ∧
      (i.endElement closing).calls = calls.reverse ++ i.calls := by
  obtain ⟨frame, frames, hf, rfl, rfl⟩ := List.map_eq_cons_iff.1 ho
  have hframes := (endElement_shape hf closing).2
  unfold openActions
  rw [hframes]
  unfold endElement
  rw [hf]
  dsimp only
  generalize hp : ({ i with frames, state := _ } : Interpreter) = popped
  obtain ⟨calls, hclosed, hcalls⟩ := closeFrame_calls popped closing frame
    (decide (i.state.marker? = some i.path) || !i.state.isSkipping)
  refine ⟨calls, hclosed, rfl, ?_⟩
  rw [hcalls, ← hp]

theorem endElement_stray_eq {i : Interpreter} (hf : i.frames = []) (name : String) :
    (i.endElement name).frames = [] ∧ (i.endElement name).calls = i.calls := by
  unfold endElement
  rw [hf]
  exact ⟨hf, rfl⟩

/-- Everything else calls nothing. -/
theorem calls_flat (i : Interpreter) {e : DocumentEvent} (he : e.isFlat = true) :
    (i.step e).calls = i.calls := by
  cases e with
  | startElement name attributes => cases he
  | endElement name => cases he
  | endDocument => cases he
  | characters text =>
    obtain ⟨frames, htext, -⟩ := i.exists_characters_eq text
    rw [step, htext]
  | _ => rfl

/-! ### The calls of all callbacks -/

/-- Nested callbacks close what they open, and their calls are a history of them. -/
theorem run_history {outermost : Bool} {es : List DocumentEvent} (hn : Nested outermost es)
    {i : Interpreter} (ho : outermost = true → i.openActions = []) :
    ∃ calls, History outermost es calls ∧ (i.run es).openActions = i.openActions ∧
      (i.run es).calls = calls.reverse ++ i.calls := by
  induction hn generalizing i with
  | nil => exact ⟨[], .nil, rfl, rfl⟩
  | @flat outermost e rest he _ ih =>
    obtain ⟨-, -, -, hopen, -⟩ := i.step_flat he
    obtain ⟨calls, hhistory, hopen', hcalls⟩ := ih (i := i.step e) (by rwa [hopen])
    refine ⟨calls, .flat he hhistory, ?_, ?_⟩
    · rw [run_cons, hopen', hopen]
    · rw [run_cons, hcalls, calls_flat i he]
  | @stray closing rest _ ih =>
    have hf : i.frames = [] := List.map_eq_nil_iff.1 (ho rfl)
    obtain ⟨hf', hcalls⟩ := endElement_stray_eq hf closing
    have hopen : (i.endElement closing).openActions = i.openActions := by
      unfold openActions
      rw [hf, hf']
    obtain ⟨calls, hhistory, hopen', hcalls'⟩ := ih (i := i.endElement closing) (by rwa [hopen])
    refine ⟨calls, .stray hhistory, ?_, ?_⟩
    · rw [run_cons]
      exact hopen'.trans hopen
    · rw [run_cons]
      exact hcalls'.trans (by rw [hcalls])
  | @element outermost name closing attributes inside rest _ _ ihInside ihRest =>
    -- what is open inside is what the start opened, so the end closes the actions of this element
    obtain ⟨begins, begun, hopened, hstart, hbegins⟩ := startElement_calls i name attributes
    obtain ⟨within, hwithin, hinside, hcalls⟩ :=
      ihInside (i := i.startElement name attributes) (by simp)
    obtain ⟨ends, hclosed, hend, hends⟩ := endElement_calls (hinside.trans hstart) closing
    obtain ⟨after, hafter, hrest, hcalls'⟩ :=
      ihRest (i := ((i.startElement name attributes).run inside).endElement closing) (by rwa [hend])
    refine ⟨begins ++ within ++ ends ++ after, .element hopened hwithin hclosed hafter, ?_, ?_⟩
    · rw [run_cons, run_append, run_cons]
      exact hrest.trans hend
    · rw [run_cons, run_append, run_cons]
      refine hcalls'.trans ?_
      rw [hends, hcalls, hbegins]
      simp only [List.reverse_append, List.append_assoc]

/-- Once no element is open, nothing is called before the next start. -/
theorem calls_without_start {i : Interpreter} (hf : i.frames = []) {es : List DocumentEvent}
    (hs : ∀ name attributes, .startElement name attributes ∉ es) : (i.run es).calls = i.calls := by
  induction es generalizing i with
  | nil => rfl
  | cons e rest ih =>
    have hrest : ∀ name attributes, .startElement name attributes ∉ rest := fun name attributes h =>
      hs name attributes (List.mem_cons_of_mem _ h)
    have hstep : (i.step e).frames = [] ∧ (i.step e).calls = i.calls := by
      by_cases hflat : e.isFlat = true
      · have hlength := frames_length_flat i hflat
        rw [hf] at hlength
        exact ⟨List.eq_nil_of_length_eq_zero hlength, calls_flat i hflat⟩
      cases e with
      | startElement name attributes => exact absurd List.mem_cons_self (hs name attributes)
      | endElement name => exact endElement_stray_eq hf name
      | endDocument =>
        refine ⟨rfl, ?_⟩
        show i.endDocument.scene.calls = i.scene.calls
        rw [scene_endDocument]
        unfold forced
        rw [hf]
        rfl
      | _ => exact absurd rfl hflat
    rw [run_cons, ih hstep.1 hrest, hstep.2]

/-- The calls of a document. Whatever callbacks an interpreter without open elements is given up
to the end of the document, its calls are a history of these callbacks and of the ends that are
forced for the elements still open. So every begin phase that succeeded is followed, at the end of
its own element, by one end phase of the same action with the data of the begin as changed by its
own body phase in between; one that gave a signal is followed by neither; elements end inside out,
and the actions of one element end in the order of their begins. After the end of the document
nothing is called until another element starts. -/
theorem calls_history {i : Interpreter} (hf : i.frames = []) (hp : i.path = .empty)
    {es : List DocumentEvent} (he : .endDocument ∉ es) :
    ∃ calls, History true (es ++ (i.run es).forced) calls ∧
      (i.run (es ++ [.endDocument])).calls = calls.reverse ++ i.calls ∧
      ∀ later, (∀ name attributes, .startElement name attributes ∉ later) →
        (i.run (es ++ .endDocument :: later)).calls = (i.run (es ++ [.endDocument])).calls := by
  have halign : i.Aligned := by
    unfold Aligned
    rw [hf, hp]
    rfl
  have hnested : Nested true (es ++ (i.run es).forced) := by
    have hcloses := Closes.after he (halign.run he).closes_forced
    rwa [hf] at hcloses
  have hnone : i.openActions = [] := by
    unfold openActions
    rw [hf]
    rfl
  obtain ⟨calls, hhistory, -, hcalls⟩ := run_history hnested fun _ => hnone
  refine ⟨calls, hhistory, ?_, ?_⟩
  · rw [← hcalls, run_append, run_append]
    show (i.run es).endDocument.scene.calls = ((i.run es).run (i.run es).forced).scene.calls
    rw [scene_endDocument]
  · intro later hlater
    rw [run_append, run_append, run_cons]
    exact calls_without_start rfl hlater

/-- Three elements are open when the document ends, after a stray end tag; the second action of
the innermost does not begin, and the first keeps what it was given. -/
theorem calls_history_unclosed :
    let keep : Action :=
      { name := "Keep"
        begin := fun name _ => pure (some (.note name))
        body := fun _ text _ s => (.ok () s, some (.note text)) }
    let stop : Action := { name := "Stop", begin := fun _ _ => throw .skipChildren }
    let i : Interpreter :=
      { rules := { rules := [(⟨["*", "a"]⟩, [keep]), (⟨["a", "a", "b"]⟩, [keep, stop])] }
        session := {} }
    let es : List DocumentEvent := [.endElement "z", .startElement "a" [], .characters "x",
      .startElement "a" [], .startElement "b" [], .startElement "a" []]
    (i.frames = [] ∧ i.path = .empty ∧ .endDocument ∉ es) ∧
      (i.run (es ++ [.endDocument])).calls.length = 8 ∧
      ∃ calls, History true (es ++ (i.run es).forced) calls ∧
        (i.run (es ++ [.endDocument])).calls = calls.reverse ++ i.calls ∧
        ∀ later, (∀ name attributes, .startElement name attributes ∉ later) →
          (i.run (es ++ .endDocument :: later)).calls = (i.run (es ++ [.endDocument])).calls := by
  intro keep stop i es
  have he : .endDocument ∉ es := by decide
  refine ⟨⟨rfl, rfl, he⟩, ?_, calls_history rfl rfl he⟩
  decide +kernel

end Interpreter
end LogConfig
