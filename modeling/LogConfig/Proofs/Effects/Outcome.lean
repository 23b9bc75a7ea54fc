import LogConfig.Action

/-
  What a phase comes to from a given session. `Phase.Yields` says of a phase that it ends with a
  value and a session in `Q`, or with a failure and a session in `E`; it never asks to skip
  anything. A phase is followed step by step: a step that only reads (`Phase.Reads`) leaves the
  session as it is, whether it fails or not, and the others have one lemma each.

  What a phase reports is said by remarks (`Session.reporting`): diagnostics that have no place of
  their own and are given the one that the session has reached.
-/

namespace LogConfig

/-- A diagnostic as a phase makes it, without a place. -/
structure Remark where
  diagnostic : Diagnostic
  unplaced : diagnostic.location = none

namespace Remark

def info (message : String) : Remark := ⟨.info message, rfl⟩

def warning (code : DiagnosticCode) (message : String) : Remark := ⟨.warning code message, rfl⟩

def error (code : DiagnosticCode) (message : String) : Remark := ⟨.error code message, rfl⟩

def withCause (remark : Remark) (cause : String) : Remark :=
  ⟨remark.diagnostic.withCause cause, remark.unplaced⟩

/-- The diagnostic recorded for a remark where this place is reached. -/
def placed (remark : Remark) (place : Option Location) : Diagnostic :=
  remark.diagnostic.atLocation place

theorem location_placed (remark : Remark) (place : Option Location) :
    (remark.placed place).location = place := by
  rw [placed, Diagnostic.atLocation, remark.unplaced]

end Remark

namespace Session

/-- With further diagnostics, each at the place that the session has reached. -/
def reporting (s : Session) (remarks : List Remark) : Session :=
  { s with diagnostics := s.diagnostics ++ remarks.map (·.placed s.location) }

theorem record_eq (s : Session) (remark : Remark) :
    s.record remark.diagnostic = s.reporting [remark] := rfl

theorem reporting_nil (s : Session) : s.reporting [] = s := by
  unfold reporting
  rw [List.map_nil, List.append_nil]

theorem reporting_reporting (s : Session) (remarks later : List Remark) :
    (s.reporting remarks).reporting later = s.reporting (remarks ++ later) := by
  unfold reporting
  rw [List.map_append, List.append_assoc]

end Session

namespace Phase

variable {α β : Type} {s : Session}

/-! ### Runs -/

/-- The session that a phase leaves, with a value or with a signal. -/
def left : EStateM.Result Signal Session α → Session
  | .ok _ s => s
  | .error _ s => s

/-- What a phase signalled, unless it ended with a value. -/
def signal? : EStateM.Result Signal Session α → Option Signal
  | .ok _ _ => none
  | .error signal _ => some signal

theorem bind_run_ok {x : Phase α} {f : α → Phase β} {s s' : Session} {a : α}
    (h : x s = .ok a s') : (x >>= f) s = f a s' := by
  show EStateM.bind x f s = _
  unfold EStateM.bind
  rw [h]

theorem bind_run_error {x : Phase α} {f : α → Phase β} {s s' : Session} {e : Signal}
    (h : x s = .error e s') : (x >>= f) s = .error e s' := by
  show EStateM.bind x f s = _
  unfold EStateM.bind
  rw [h]

/-- A phase that reads the session goes on in the session it has read. -/
theorem get_bind_run (f : Session → Phase α) (s : Session) : (get >>= f : Phase α) s = f s s := rfl

/-- The result is a value and a session in `Q`, or a failure and a session in `E`. -/
inductive Comes (Q : α → Session → Prop) (E : ConfigError → Session → Prop) :
    EStateM.Result Signal Session α → Prop where
  | ok {a : α} {s : Session} : Q a s → Comes Q E (.ok a s)
  | failed {e : ConfigError} {s : Session} : E e s → Comes Q E (.error (.failed e) s)

/-- The phase, called in the session `s`, comes to a value and a session in `Q`, or to a failure
and a session in `E`. -/
def Yields (x : Phase α) (s : Session) (Q : α → Session → Prop)
    (E : ConfigError → Session → Prop) : Prop := Comes Q E (x s)

variable {Q Q' : β → Session → Prop} {E E' : ConfigError → Session → Prop}

theorem Comes.mono {r : EStateM.Result Signal Session β} (h : Comes Q E r)
    (hq : ∀ b s', Q b s' → Q' b s') (he : ∀ e s', E e s' → E' e s') : Comes Q' E' r := by
  cases h with
  | ok h => exact .ok (hq _ _ h)
  | failed h => exact .failed (he _ _ h)

theorem Comes.left {r : EStateM.Result Signal Session β} (h : Comes Q E r) {P : Session → Prop}
    (hq : ∀ b s', Q b s' → P s') (he : ∀ e s', E e s' → P s') : P (left r) := by
  cases h with
  | ok h => exact hq _ _ h
  | failed h => exact he _ _ h

/-- All that is signalled is a failure. -/
theorem Comes.signal? {r : EStateM.Result Signal Session β} (h : Comes Q E r) {signal : Signal}
    (hr : signal? r = some signal) : ∃ e, signal = .failed e := by
  cases h with
  | ok _ => cases hr
  | @failed e _ _ =>
    cases hr
    exact ⟨e, rfl⟩

theorem Yields.mono {x : Phase β} (h : x.Yields s Q E) (hq : ∀ b s', Q b s' → Q' b s')
    (he : ∀ e s', E e s' → E' e s') : x.Yields s Q' E' := Comes.mono h hq he

theorem Yields.left {x : Phase β} (h : x.Yields s Q E) {P : Session → Prop}
    (hq : ∀ b s', Q b s' → P s') (he : ∀ e s', E e s' → P s') : P (left (x s)) :=
  Comes.left h hq he

theorem Yields.of_ok {x : Phase β} (h : x.Yields s Q E) {b : β} {s' : Session}
    (hx : x s = .ok b s') : Q b s' := by
  unfold Yields at h
  rw [hx] at h
  cases h with
  | ok h => exact h

theorem Yields.of_error {x : Phase β} (h : x.Yields s Q E) {signal : Signal} {s' : Session}
    (hx : x s = .error signal s') : ∃ e, signal = .failed e ∧ E e s' := by
  unfold Yields at h
  rw [hx] at h
  cases h with
  | failed h => exact ⟨_, rfl, h⟩

/-! ### Sequences -/

theorem yields_bind {x : Phase α} {f : α → Phase β}
    (h : x.Yields s (fun a s' => (f a).Yields s' Q E) E) : (x >>= f).Yields s Q E := by
  unfold Yields
  cases hx : x s with
  | ok a s' =>
    rw [bind_run_ok hx]
    exact h.of_ok hx
  | error signal s' =>
    rw [bind_run_error hx]
    obtain ⟨e, rfl, he⟩ := h.of_error hx
    exact .failed he

theorem yields_pure {b : β} (h : Q b s) : (pure b : Phase β).Yields s Q E := Comes.ok h

theorem yields_fail {e : ConfigError} (h : E e s) : (fail e : Phase β).Yields s Q E :=
  Comes.failed h

theorem yields_set {s' : Session} {Q : Unit → Session → Prop} (h : Q () s') :
    (set s' : Phase Unit).Yields s Q E := Comes.ok h

theorem yields_modify {g : Session → Session} {Q : Unit → Session → Prop} (h : Q () (g s)) :
    (modify g : Phase Unit).Yields s Q E := Comes.ok h

theorem yields_get_bind {f : Session → Phase β} (h : (f s).Yields s Q E) :
    (get >>= f : Phase β).Yields s Q E := h

theorem yields_set_bind {s' : Session} {f : Unit → Phase β} (h : (f ()).Yields s' Q E) :
    (set s' >>= f : Phase β).Yields s Q E := h

theorem yields_modify_bind {g : Session → Session} {f : Unit → Phase β}
    (h : (f ()).Yields (g s) Q E) : (modify g >>= f : Phase β).Yields s Q E := h

/-! ### Steps that read -/

/-- The phase leaves the session as it is, also when it fails. -/
def Reads (x : Phase α) : Prop := ∀ s, (∃ a, x s = .ok a s) ∨ ∃ e, x s = .error (.failed e) s

theorem yields_reads_bind {x : Phase α} (hx : x.Reads) {f : α → Phase β}
    (hf : ∀ a, x s = .ok a s → (f a).Yields s Q E)
    (he : ∀ e, x s = .error (.failed e) s → E e s) : (x >>= f).Yields s Q E := by
  refine yields_bind ?_
  unfold Yields
  rcases hx s with ⟨a, ha⟩ | ⟨e, ha⟩
  · rw [ha]
    exact .ok (hf a ha)
  · rw [ha]
    exact .failed (he e ha)

theorem reads_pure (a : α) : (pure a : Phase α).Reads := fun _ => .inl ⟨a, rfl⟩

theorem reads_fail (e : ConfigError) : (fail e : Phase α).Reads := fun _ => .inr ⟨e, rfl⟩

theorem reads_get_bind {f : Session → Phase α} (h : ∀ s, (f s).Reads) :
    (get >>= f : Phase α).Reads := fun s => h s s

theorem reads_bind {x : Phase α} {f : α → Phase β} (hx : x.Reads) (hf : ∀ a, (f a).Reads) :
    (x >>= f).Reads := by
  intro s
  rcases hx s with ⟨a, ha⟩ | ⟨e, ha⟩
  · rw [bind_run_ok ha]
    exact hf a s
  · exact .inr ⟨e, bind_run_error ha⟩

theorem reads_ofExcept (x : Except ConfigError α) : (ofExcept x).Reads := by
  cases x with
  | ok a => exact reads_pure a
  | error e => exact reads_fail e

theorem reads_orFail (e : ConfigError) (x : Option α) : (orFail e x).Reads := by
  cases x with
  | some a => exact reads_pure a
  | none => exact reads_fail e

theorem reads_substitute (text : String) : (substitute text).Reads := by
  refine reads_get_bind fun s => ?_
  cases s.substitute text with
  | ok expanded => exact reads_pure expanded
  | error e => exact reads_fail _

theorem reads_attribute? (attributes : Attributes) (name : String) :
    (attribute? attributes name).Reads := by
  unfold attribute?
  cases (Entries.find? name attributes).map Text.trim with
  | none => exact reads_pure none
  | some raw =>
    dsimp only
    split
    · exact reads_pure none
    · exact reads_bind (reads_substitute raw) fun _ => reads_pure _

theorem reads_requiredAttribute (element : String) (attributes : Attributes) (name : String) :
    (requiredAttribute element attributes name).Reads := by
  refine reads_bind (reads_attribute? attributes name) fun value? => ?_
  cases value? with
  | none => exact reads_fail _
  | some value =>
    dsimp only
    split
    · exact reads_fail _
    · exact reads_pure value

theorem reads_top : top.Reads := reads_get_bind fun _ => reads_orFail _ _

theorem reads_context : context.Reads := reads_get_bind fun _ => reads_orFail _ _

/-! ### What is read -/

theorem of_ofExcept {x : Except ConfigError α} {a : α} {s' : Session}
    (h : ofExcept x s = .ok a s') : x = .ok a := by
  cases x with
  | ok b =>
    cases h
    rfl
  | error e => cases h

theorem of_orFail {e : ConfigError} {x : Option α} {a : α} {s' : Session}
    (h : orFail e x s = .ok a s') : x = some a := by
  cases x with
  | some b =>
    cases h
    rfl
  | none => cases h

theorem of_top {r : Ref} {s' : Session} (h : top s = .ok r s') : s.top? = some r :=
  of_orFail (show orFail _ s.top? s = .ok r s' from h)

theorem of_substitute {text expanded : String} {s' : Session}
    (h : substitute text s = .ok expanded s') : s.substitute text = .ok expanded := by
  unfold substitute at h
  rw [get_bind_run] at h
  cases hs : s.substitute text with
  | error e =>
    rw [hs] at h
    cases h
  | ok found =>
    rw [hs] at h
    cases h
    rfl

theorem of_context {place : Ref × LoggerContext} {s' : Session} (h : context s = .ok place s') :
    s.context? = some place :=
  of_orFail (show orFail _ s.context? s = .ok place s' from h)

/-! ### Steps that change the session -/

theorem yields_info_bind {message : String} {f : Unit → Phase β}
    (h : (f ()).Yields (s.info message) Q E) : (info message >>= f).Yields s Q E := h

theorem yields_warn_bind {code : DiagnosticCode} {message : String} {f : Unit → Phase β}
    (h : (f ()).Yields (s.warn code message) Q E) : (warn code message >>= f).Yields s Q E := h

theorem yields_instantiate_bind {className : String} {kind : ComponentKind} {f : Ref → Phase β}
    (hf : ∀ c, s.classes.instanceOfKind? className kind = .ok c →
      (f s.graph.next).Yields { s with graph := s.graph.add c } Q E)
    (he : ∀ e, E e s) : (instantiate className kind >>= f).Yields s Q E := by
  refine yields_bind (yields_get_bind (yields_reads_bind (reads_ofExcept _) ?_ fun e _ => he e))
  intro c hc
  exact yields_get_bind (yields_set_bind (yields_pure (hf c (of_ofExcept hc))))

theorem yields_changeGraph {g : Graph → Except PropertyError Graph} {Q : Unit → Session → Prop}
    (hf : ∀ graph, g s.graph = .ok graph → Q () { s with graph }) (he : ∀ e, E e s) :
    (changeGraph g).Yields s Q E := by
  refine yields_get_bind ?_
  cases hg : g s.graph with
  | ok graph => exact yields_set (hf graph hg)
  | error e => exact yields_fail (he _)

theorem yields_changeGraph_bind {g : Graph → Except PropertyError Graph} {f : Unit → Phase β}
    (hf : ∀ graph, g s.graph = .ok graph → (f ()).Yields { s with graph } Q E)
    (he : ∀ e, E e s) : (changeGraph g >>= f).Yields s Q E :=
  yields_bind (yields_changeGraph hf he)

end Phase
end LogConfig
