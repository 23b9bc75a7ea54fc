import LogConfig.Proofs.Document.Tracking
import LogConfig.Proofs.Effects.Trace
import LogConfig.Proofs.Report.Disclosure

/-
  The order in which a session records. The places of its diagnostics never decrease, and none of
  them is behind the place reached (`Session.InOrder`). Between two places told, all that is
  recorded is recorded at the first of them (`Interpreter.step_recordsInPlace`), whichever actions
  are called, as long as these record in place. So the places recorded are in order where the places
  told are (`Interpreter.run_inOrder`), and in a document these are the answers of one tracker.
-/

namespace LogConfig

open Session

/-! ### The phases of an element -/

namespace Scene

theorem after_recordsInPlace {sc : Scene} {call : Call} (hcall : call.session = sc.session)
    (ha : call.action.RecordsInPlace) : sc.session.RecordsInPlace (sc.after call).session := by
  have called : call.session.RecordsInPlace call.left := by
    cases call with
    | begin a name attributes s => exact ha.begin name attributes s
    | body a name text data s => exact ha.body name text data s
    | finish a name data s => exact ha.finish name data s
  have dropped : call.left.RecordsInPlace call.left.dropRuleRequests := recordsInPlace_of_eq rfl rfl
  obtain ⟨rules, remarks, hafter, -⟩ := sc.exists_after_eq call
  rw [hafter, ← hcall]
  exact called.trans (dropped.trans (recordsInPlace_of_reporting rfl rfl))

theorem kept_recordsInPlace :
    Kept Action.RecordsInPlace fun sc _ sc' => sc.session.RecordsInPlace sc'.session where
  refl sc := .refl sc.session
  trans h h' := h.trans h'
  call hcall hfollows := after_recordsInPlace hcall hfollows.action

theorem actionsFor_recordsInPlace (sc : Scene) (implicit : List ImplicitAction) (path : ElementPath)
    (attributes : Attributes) :
    sc.session.RecordsInPlace (sc.actionsFor implicit path attributes).1.session := by
  unfold actionsFor
  split
  · exact .refl _
  · split
    · exact .refl _
    · exact recordsInPlace_record _ rfl

end Scene

/-! ### One event -/

namespace Interpreter

theorem startElement_recordsInPlace {i : Interpreter} (h : i.Acts Action.RecordsInPlace)
    (name : String) (attributes : Attributes) :
    i.session.RecordsInPlace (i.startElement name attributes).session := by
  cases hs : i.state.isSkipping with
  | true =>
    rw [startElement_skipping hs]
    exact .refl _
  | false =>
    rw [startElement_eq hs]
    have hactions : ∀ a ∈ (i.scene.actionsFor i.implicit (i.path.push name) attributes).2,
        a.RecordsInPlace := (Scene.actionsFor_traces h.rules h.implicit _ _).2
    have found := i.scene.actionsFor_recordsInPlace i.implicit (i.path.push name) attributes
    obtain ⟨-, began, -⟩ := Scene.kept_recordsInPlace.beginAll _ name attributes hactions
    exact found.trans began

theorem endElement_recordsInPlace {i : Interpreter} (h : i.Acts Action.RecordsInPlace)
    (name : String) : i.session.RecordsInPlace (i.endElement name).session := by
  cases hf : i.frames with
  | nil =>
    unfold endElement
    rw [hf]
    exact recordsInPlace_record _ rfl
  | cons frame outer =>
    have hv : Scene.Began Action.RecordsInPlace i.calls frame.invocations :=
      h.opened _ (by rw [openActions, hf]; exact List.mem_cons_self)
    obtain ⟨sc, calls, closed, hend⟩ := endElement_kept Scene.kept_recordsInPlace hf hv name
    rw [hend]
    exact closed

/-- Every event that tells no place, but the end of the document. -/
theorem step_recordsInPlace {i : Interpreter} (h : i.Acts Action.RecordsInPlace)
    {e : DocumentEvent} (hplace : e.place? = none) (he : e ≠ .endDocument) :
    i.session.RecordsInPlace (i.step e).session := by
  cases e with
  | startDocument => exact .refl _
  | place location => cases hplace
  | startElement name attributes => exact startElement_recordsInPlace h name attributes
  | characters text =>
    obtain ⟨frames, htext, -⟩ := i.exists_characters_eq text
    rw [step, htext]
    exact .refl _
  | endElement name => exact endElement_recordsInPlace h name
  | endDocument => exact absurd rfl he
  | warning message => exact recordsInPlace_record _ rfl
  | error message => exact recordsInPlace_record _ rfl
  | fatal message => exact recordsInPlace_record _ rfl

end Interpreter

/-! ### Order -/

namespace Session

/-- The places of the diagnostics that have one, in the order in which they were recorded. -/
def places (s : Session) : List Location := s.diagnostics.filterMap Diagnostic.location

/-- The places recorded never decrease, and none of them is behind the place reached. -/
structure InOrder (s : Session) : Prop where
  sorted : s.places.Pairwise (· ≤ ·)
  reached : ∀ place ∈ s.places, ∃ current, s.location = some current ∧ place ≤ current

variable {s s' : Session}

theorem RecordsInPlace.places (h : s.RecordsInPlace s') :
    ∃ recorded, s'.places = s.places ++ recorded ∧ ∀ place ∈ recorded, s.location = some place := by
  obtain ⟨ds, hds, hplaces⟩ := h.diagnostics
  refine ⟨ds.filterMap Diagnostic.location, ?_, fun place hplace => ?_⟩
  · rw [Session.places, hds, List.filterMap_append, Session.places]
  · obtain ⟨d, hd, hlocation⟩ := List.mem_filterMap.1 hplace
    rw [← hplaces d hd, hlocation]

theorem InOrder.recorded (h : s.InOrder) (hr : s.RecordsInPlace s') : s'.InOrder := by
  obtain ⟨recorded, hplaces, hcurrent⟩ := hr.places
  refine ⟨?_, fun place hplace => ?_⟩
  · rw [hplaces]
    refine List.pairwise_append.2 ⟨h.sorted, ?_, fun place hplace later hlater => ?_⟩
    · refine List.pairwise_of_forall_mem_list fun place hplace later hlater => ?_
      obtain rfl := Option.some.inj ((hcurrent place hplace).symm.trans (hcurrent later hlater))
      exact place.le_refl
    · obtain ⟨current, hlocation, hle⟩ := h.reached place hplace
      obtain rfl := Option.some.inj (hlocation.symm.trans (hcurrent later hlater))
      exact hle
  · rw [hplaces] at hplace
    rw [hr.location]
    rcases List.mem_append.1 hplace with hplace | hplace
    · exact h.reached place hplace
    · exact ⟨place, hcurrent place hplace, place.le_refl⟩

/-- A place is told that is not before the one reached. -/
theorem InOrder.atPlace (h : s.InOrder) {place : Location}
    (hp : ∀ current, s.location = some current → current ≤ place) :
    (s.atPlace (some place)).InOrder := by
  refine ⟨h.sorted, fun earlier hearlier => ⟨place, rfl, ?_⟩⟩
  obtain ⟨current, hlocation, hle⟩ := h.reached earlier hearlier
  exact Location.le_trans hle (hp current hlocation)

end Session

/-- The places recorded are in order if the places told are, from the one reached before. -/
theorem Interpreter.run_inOrder {i : Interpreter} (h : i.Acts Action.RecordsInPlace)
    (hs : i.session.InOrder) {es : List DocumentEvent} (he : .endDocument ∉ es)
    (hp : (i.session.location.toList ++ es.filterMap DocumentEvent.place?).Pairwise (· ≤ ·)) :
    (i.run es).session.InOrder := by
  induction es generalizing i with
  | nil => exact hs
  | cons e es ih =>
    have hhead : e ≠ .endDocument := (List.ne_of_not_mem_cons he).symm
    have hrest : .endDocument ∉ es := List.not_mem_of_not_mem_cons he
    have hacts := (step_traces (fun _ n ha => ha.instance n) h hhead).acts
    rw [run_cons]
    cases hplace : e.place? with
    | none =>
      have hstep := step_recordsInPlace h hplace hhead
      rw [List.filterMap_cons_none hplace] at hp
      refine ih hacts (hs.recorded hstep) hrest ?_
      rwa [hstep.location]
    | some location =>
      obtain rfl : e = .place location := by
        cases e with
        | place l => exact congrArg DocumentEvent.place (Option.some.inj hplace)
        | _ => cases hplace
      rw [List.filterMap_cons_some hplace, List.pairwise_append] at hp
      obtain ⟨-, htold, hlater⟩ := hp
      refine ih hacts (hs.atPlace fun current hcurrent => ?_) hrest htold
      exact hlater current (Option.mem_toList.2 hcurrent) location List.mem_cons_self

namespace Configurator

theorem places_callbacks (c : Configurator) (g : Graph) (source : String) :
    (c.callbacks g source).filterMap DocumentEvent.place? =
      ({} : Document.Tracker).places source.toList
        ((Document.markupOf source.toList).map (Document.placeOffset source.toList)) := by
  have hforced : ∀ i : Interpreter, i.forced.filterMap DocumentEvent.place? = [] := by
    refine fun i => List.filterMap_eq_nil_iff.2 fun e he => ?_
    rcases Interpreter.mem_forced he with ⟨message, rfl⟩ | ⟨tag, rfl⟩
    · rfl
    · rfl
  rw [callbacks, List.filterMap_append, hforced, List.append_nil, ← Document.places_eventsFrom]
  rfl

theorem run_inOrder (c : Configurator) (hc : c.actions.All Action.RecordsInPlace) (g : Graph)
    (source : String) : (c.run g source).InOrder := by
  have hacts : (c.interpreter g).Acts Action.RecordsInPlace :=
    c.acts_of_all (fun _ n ha => ha.instance n) Actions.builtins_recordInPlace hc g
  obtain ⟨properties, hsession⟩ := c.session_eq g
  have hfresh : (c.interpreter g).session = c.session g := rfl
  have hstart : (c.interpreter g).session.InOrder := by
    rw [hfresh, hsession]
    exact ⟨.nil, fun place hplace => absurd hplace List.not_mem_nil⟩
  have htold : ((c.interpreter g).session.location.toList ++
      (c.callbacks g source).filterMap DocumentEvent.place?).Pairwise (· ≤ ·) := by
    rw [hfresh, hsession, places_callbacks]
    exact Document.Tracker.places_pairwise _ _ _
  have hend := Interpreter.run_inOrder hacts hstart (c.endDocument_not_mem_callbacks g source) htold
  rw [← session_run_events] at hend
  refine hend.recorded ?_
  unfold Configurator.run finish
  split
  · exact .refl _
  · exact recordsInPlace_record _ rfl

/-- The answers of a tracker are counted from the start of the text and never decrease, and so the
diagnostics of a session are recorded in the order of their places. -/
theorem places_tracked_in_order (source : String) :
    (∀ offsets : List Nat, (∀ offset ∈ offsets, Document.Boundary source.toList offset) →
      ∀ i < offsets.length, ∃ place,
        (({} : Document.Tracker).places source.toList offsets)[i]? = some place ∧
        Document.IsPlaceAt source.toList (Document.greatest (offsets.take (i + 1))) place) ∧
    (∀ offsets, (({} : Document.Tracker).places source.toList offsets).Pairwise (· ≤ ·)) ∧
    Actions.registry.All Action.RecordsInPlace ∧
    ∀ (c : Configurator) (g : Graph), c.actions.All Action.RecordsInPlace →
      (c.run g source).places.Pairwise (· ≤ ·) := by
  refine ⟨fun offsets h i hi => Document.Tracker.places_exact h hi,
    fun offsets => Document.Tracker.places_pairwise _ _ offsets,
    Actions.all_registry Actions.builtins_recordInPlace, fun c g hc => ?_⟩
  exact (c.run_inOrder hc g source).sorted

/-- A document of three lines. The tracker is asked for offsets again, behind it and past the end;
the letter of two bytes is one column. -/
theorem places_tracked_in_order_lines :
    let source := "<configuration>\n \u00e9<root level=\"x\"/>\n <nothing/></configuration>"
    let offsets := [16, 19, 19, 3, 200, 17]
    let g := (Graph.addContext {} "test").1
    let c : Configurator := { context := (Graph.addContext {} "test").2 }
    (∀ offset ∈ offsets, Document.Boundary source.toList offset) ∧
    ({} : Document.Tracker).places source.toList offsets =
      [⟨2, 1⟩, ⟨2, 3⟩, ⟨2, 3⟩, ⟨2, 3⟩, ⟨3, 28⟩, ⟨3, 28⟩] ∧
    (∀ i < 6, ∃ place, (({} : Document.Tracker).places source.toList offsets)[i]? = some place ∧
      Document.IsPlaceAt source.toList (Document.greatest (offsets.take (i + 1))) place) ∧
    (c.run g source).places = [⟨2, 3⟩, ⟨3, 2⟩, ⟨3, 28⟩] ∧
    (c.run g source).places.Pairwise (· ≤ ·) := by
  intro source offsets g c
  have hoffsets : ∀ offset ∈ offsets, Document.Boundary source.toList offset := by decide +kernel
  obtain ⟨hexact, -, hregistry, hsorted⟩ := places_tracked_in_order source
  exact ⟨hoffsets, by decide +kernel, hexact offsets hoffsets, by decide +kernel,
    hsorted c g hregistry⟩

end Configurator
end LogConfig
