import LogConfig.Proofs.Effects.Outcome

/-
  Where diagnostics are recorded. From one session to another the place reached is the same, and
  every diagnostic recorded in between has this place (`Session.RecordsInPlace`); so it is where a
  phase reports no more than remarks (`recordsInPlace_of_reporting`).
-/

namespace LogConfig

/-- From the first session to the second the place is the same, and diagnostics were only added,
each at this place. -/
structure Session.RecordsInPlace (s s' : Session) : Prop where
  location : s'.location = s.location
  diagnostics : ∃ ds, s'.diagnostics = s.diagnostics ++ ds ∧ ∀ d ∈ ds, d.location = s.location

namespace Session

variable {s s' s'' : Session}

/-- Only remarks are recorded. -/
theorem recordsInPlace_of_reporting {remarks : List Remark} (hl : s'.location = s.location)
    (hd : s'.diagnostics = (s.reporting remarks).diagnostics) : s.RecordsInPlace s' := by
  refine ⟨hl, remarks.map (Remark.placed · s.location), hd, fun d hd => ?_⟩
  obtain ⟨remark, -, rfl⟩ := List.mem_map.1 hd
  exact remark.location_placed _

/-- Nothing is recorded. -/
theorem recordsInPlace_of_eq (hl : s'.location = s.location)
    (hd : s'.diagnostics = s.diagnostics) : s.RecordsInPlace s' :=
  recordsInPlace_of_reporting hl (hd.trans (congrArg diagnostics s.reporting_nil).symm)

theorem RecordsInPlace.refl (s : Session) : s.RecordsInPlace s := recordsInPlace_of_eq rfl rfl

theorem RecordsInPlace.trans (h : s.RecordsInPlace s') (h' : s'.RecordsInPlace s'') :
    s.RecordsInPlace s'' := by
  obtain ⟨ds, hds, hplaces⟩ := h.diagnostics
  obtain ⟨es, hes, hlater⟩ := h'.diagnostics
  refine ⟨h'.location.trans h.location, ds ++ es, by rw [hes, hds, List.append_assoc], ?_⟩
  intro d hd
  rcases List.mem_append.1 hd with hd | hd
  · exact hplaces d hd
  · exact (hlater d hd).trans h.location

theorem RecordsInPlace.starts (h : s.RecordsInPlace s') : s.diagnostics <+: s'.diagnostics := by
  obtain ⟨ds, hds, -⟩ := h.diagnostics
  exact ⟨ds, hds.symm⟩

/-- A diagnostic without a place is given the one reached. -/
theorem recordsInPlace_record (s : Session) {d : Diagnostic} (hd : d.location = none) :
    s.RecordsInPlace (s.record d) :=
  recordsInPlace_of_reporting rfl (congrArg diagnostics (s.record_eq ⟨d, hd⟩))

end Session

/-- Called in this session, the phase records in place, whether it succeeds or not. -/
def Phase.InPlace {α : Type} (x : Phase α) (s : Session) : Prop :=
  s.RecordsInPlace (Phase.left (x s))

/-- Every phase of the action records in place, whatever it is called with. -/
structure Action.RecordsInPlace (a : Action) : Prop where
  begin : ∀ name attributes s, (a.begin name attributes).InPlace s
  body : ∀ name text data (s : Session),
    s.RecordsInPlace (Phase.left (a.body name text data s).1)
  finish : ∀ name data s, (a.finish name data).InPlace s

theorem Action.RecordsInPlace.instance {a : Action} (h : a.RecordsInPlace) (n : Nat) :
    { a with instanceId := n }.RecordsInPlace := ⟨h.begin, h.body, h.finish⟩

end LogConfig
