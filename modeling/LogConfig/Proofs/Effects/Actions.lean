import LogConfig.Actions
import LogConfig.Proofs.Effects.Outcome

/-
  What each built-in action does to a session: one lemma for each of its phases, which says what
  the session is when the phase succeeds and what it is when the phase fails. Nothing else about a
  session changes than what such a lemma names.

  A begin phase that fails leaves the session as it was, with these exceptions: an appender may be
  left in the graph without anything that refers to it, a property may have been warned of, and a
  logger may have been declared whose settings could not be read.
-/

namespace LogConfig

/-! ### Operations that may refuse -/

namespace Graph

theorem update_eq_ok {g g' : Graph} {r : Ref} {f : Component → Except PropertyError Component}
    (h : g.update r f = .ok g') :
    ∃ c c', g.get? r = some c ∧ f c = .ok c' ∧ g' = g.put r c' := by
  unfold update at h
  cases hc : g.get? r with
  | none =>
    rw [hc] at h
    cases h
  | some c =>
    rw [hc] at h
    dsimp only at h
    cases hf : f c with
    | error e =>
      rw [hf] at h
      cases h
    | ok c' =>
      rw [hf] at h
      cases h
      exact ⟨c, c', rfl, hf, rfl⟩

theorem get?_of_logger? {g : Graph} {r : Ref} {l : Logger} (h : g.logger? r = some l) :
    g.get? r = some (.logger l) := by
  unfold logger? at h
  split at h
  · next l' hg =>
    cases h
    exact hg
  · cases h

theorem get?_of_context? {g : Graph} {r : Ref} {c : LoggerContext} (h : g.context? r = some c) :
    g.get? r = some (.context c) := by
  unfold context? at h
  split at h
  · next c' hg =>
    cases h
    exact hg
  · cases h

/-- The settings of a logger may have changed: its level, which the root logger keeps, or its
additivity. -/
inductive Adjusted (g : Graph) (r : Ref) : Graph → Prop where
  | kept : Adjusted g r g
  | level {l : Logger} {level : Option Level} :
    g.logger? r = some l → (level = none → l.isRoot = false) →
    Adjusted g r (g.put r (.logger { l with level }))
  | additive {l : Logger} {additive : Bool} :
    g.logger? r = some l → Adjusted g r (g.put r (.logger { l with additive }))

/-- A child was put into a slot or a collection of its parent, as one of the kind wanted there. -/
inductive Attached (g : Graph) (r child : Ref) : Graph → Prop where
  | slot {c c' held : Component} {name published : String} {kind : ComponentKind} :
    g.get? r = some c →
    Descriptor.single? c.descriptors (PropertyName.decapitalize name) =
      some ⟨published, .slot kind⟩ →
    child ≠ r → g.get? child = some held → held.isKind kind = true →
    c.setComponent (PropertyName.decapitalize name) child = .ok c' → Attached g r child (g.put r c')
  | member {c c' held : Component} {name property : String} {kind : ComponentKind} :
    g.get? r = some c →
    Descriptor.collection? c.descriptors name = some ⟨property, .collection kind⟩ →
    child ≠ r → g.get? child = some held → held.isKind kind = true →
    c.addComponent property child = .ok c' → Attached g r child (g.put r c')

theorem checkAssignable_eq_ok {g : Graph} {owner child : Ref} {name : String}
    {kind : ComponentKind} (h : g.checkAssignable owner name kind child = .ok ()) :
    child ≠ owner ∧ ∃ held, g.get? child = some held ∧ held.isKind kind = true := by
  unfold checkAssignable at h
  split at h
  · cases h
  · next hne =>
    refine ⟨hne, ?_⟩
    split at h
    · next held hheld =>
      split at h
      · next hkind => exact ⟨held, hheld, hkind⟩
      · cases h
    · cases h

theorem attached_of_fillSlot {g g' : Graph} {r child : Ref} {name : String}
    (h : g.fillSlot r name child = .ok g') : g.Attached r child g' := by
  obtain ⟨c, c', hc, hfill, rfl⟩ := update_eq_ok h
  dsimp only at hfill
  split at hfill
  · next published kind hd =>
    split at hfill
    · next hcheck =>
      obtain ⟨hne, held, hheld, hkind⟩ := checkAssignable_eq_ok hcheck
      exact .slot hc hd hne hheld hkind hfill
    · cases hfill
  · cases hfill

theorem attached_of_addToCollection {g g' : Graph} {r child : Ref} {name : String}
    (h : g.addToCollection r name child = .ok g') : g.Attached r child g' := by
  obtain ⟨c, c', hc, hadd, rfl⟩ := update_eq_ok h
  split at hadd
  · next property kind hd =>
    split at hadd
    · next hcheck =>
      obtain ⟨hne, held, hheld, hkind⟩ := checkAssignable_eq_ok hcheck
      exact .member hc hd hne hheld hkind hadd
    · cases hadd
  · cases hadd

theorem attached_of_attach {g g' : Graph} {r child : Ref} {aggregation : Aggregation}
    {name : String} (h : g.attach r aggregation name child = .ok g') : g.Attached r child g' := by
  cases aggregation with
  | notFound => cases h
  | asProperty => exact attached_of_fillSlot h
  | asCollection => exact attached_of_addToCollection h

theorem checkAssignable_of_isKind {g : Graph} {owner child : Ref} {kind : ComponentKind}
    {held : Component} (hne : child ≠ owner) (hheld : g.get? child = some held)
    (hkind : held.isKind kind = true) (name : String) :
    g.checkAssignable owner name kind child = .ok () := by
  unfold checkAssignable
  rw [if_neg hne, hheld]
  exact if_pos hkind

/-- A child is put into its parent by attaching it under some name. -/
theorem Attached.exists_attach {g g' : Graph} {r child : Ref} (h : g.Attached r child g') :
    ∃ aggregation name, g.attach r aggregation name child = .ok g' := by
  cases h with
  | @slot c c' held name published kind hc hd hne hheld hkind hset =>
    refine ⟨.asProperty, name, ?_⟩
    simp only [attach, fillSlot, update, hc, hd, checkAssignable_of_isKind hne hheld hkind, hset]
    rfl
  | @member c c' held name property kind hc hd hne hheld hkind hadd =>
    refine ⟨.asCollection, name, ?_⟩
    simp only [attach, addToCollection, update, hc, hd, checkAssignable_of_isKind hne hheld hkind, hadd]
    rfl

end Graph

namespace Session

theorem context?_eq_some {s : Session} {place : Ref} {c : LoggerContext}
    (h : s.context? = some (place, c)) :
    s.stack.getLast? = some place ∧ s.graph.context? place = some c := by
  unfold context? at h
  cases hlast : s.stack.getLast? with
  | none =>
    rw [hlast] at h
    cases h
  | some r =>
    rw [hlast] at h
    obtain ⟨c', hc, he⟩ := Option.map_eq_some_iff.1 (show (s.graph.context? r).map _ = _ from h)
    cases he
    exact ⟨rfl, hc⟩

theorem appenderBag_keepAppender (s : Session) (name : String) (r : Ref) :
    (s.keepAppender name r).appenderBag = Entries.insert name r s.appenderBag := by
  unfold appenderBag
  rw [show (s.keepAppender name r).objects = Entries.insert appenderBagKey
    (.appenders (Entries.insert name r s.appenderBag)) s.objects from rfl,
    Entries.find?_insert_self]
  rfl

/-- The graph and the handle of the logger of a name, once it was asked for: one that the context
knows, or a new one, plain or after a class. -/
inductive HasLogger (s : Session) (name : String) : Graph → Ref → Prop where
  | known {place r : Ref} {c : LoggerContext} :
    s.context? = some (place, c) → c.find? name = some r → HasLogger s name s.graph r
  | plain {place : Ref} {c : LoggerContext} :
    s.context? = some (place, c) → c.find? name = none →
    HasLogger s name (s.graph.addLogger place c name { name }).1 s.graph.next
  | ofClass {place : Ref} {c : LoggerContext} {className : String} {prototype : Logger} :
    s.context? = some (place, c) → c.find? name = none →
    s.classes.instanceOfKind? className .logger = .ok (.logger prototype) →
    HasLogger s name (s.graph.addLogger place c name { prototype with name }).1 s.graph.next

/-- After the activation of a component was called. -/
def activated (s : Session) (r : Ref) : Session :=
  match (s.graph.get? r).bind Component.activate? with
  | some (.ok active) => { s.noteActivation r with graph := s.graph.put r active }
  | some (.error reason) =>
    (s.noteActivation r).recordError (.activation (s.graph.className r) reason)
  | none => s

theorem stack_activated (s : Session) (r : Ref) : (s.activated r).stack = s.stack := by
  unfold activated
  split
  · rfl
  · rfl
  · rfl

theorem top?_activated (s : Session) (r : Ref) : (s.activated r).top? = s.top? :=
  congrArg List.head? (stack_activated s r)

/-- After an object was to be taken from the top of the stack: another object there stays, and is
warned of. -/
inductive Popped (s : Session) (r : Ref) : Session → Prop where
  | taken : s.top? = some r → Popped s r s.pop
  | left {message : String} : s.top? ≠ some r → Popped s r (s.warn .stackDiscipline message)

/-- After the end of an element whose component is to go to a parent: the component is activated,
and taken from the top of the stack and attached if it is there. -/
inductive Delivered (s : Session) (child : Ref) (parent? : Option Ref) : Session → Prop where
  | left {message : String} : s.top? ≠ some child →
    Delivered s child parent? ((s.activated child).warn .stackDiscipline message)
  | attached {parent : Ref} {graph : Graph} : s.top? = some child → parent? = some parent →
    (s.activated child).graph.Attached parent child graph →
    Delivered s child parent? { (s.activated child).pop with graph }

end Session

namespace Phase

theorem activate_eq (r : Ref) (s : Session) : activate r s = .ok () (s.activated r) := by
  unfold activate Session.activated
  rw [get_bind_run]
  cases hg : s.graph.get? r with
  | none => rfl
  | some c =>
    simp only [Option.bind_some, Graph.className, hg, Option.map_some, Option.getD_some]
    rcases c.activate? with _ | reason | active
    · rfl
    · rfl
    · rfl

theorem popExpected_eq (r : Ref) (what : String) (s : Session) :
    popExpected r what s =
      if s.top? = some r then .ok true s.pop
      else .ok false (s.warn .stackDiscipline
        ("The object at the top of the stack is not the " ++ what ++ " pushed earlier")) := by
  unfold popExpected
  rw [get_bind_run]
  split
  · rfl
  · rfl

variable {α : Type} {s : Session} {Q : α → Session → Prop} {E : ConfigError → Session → Prop}

theorem yields_activate_bind {r : Ref} {f : Unit → Phase α}
    (h : (f ()).Yields (s.activated r) Q E) : (activate r >>= f).Yields s Q E := by
  refine yields_bind ?_
  unfold Yields
  rw [activate_eq]
  exact .ok h

theorem yields_popExpected_bind {r : Ref} {what : String} {f : Bool → Phase α}
    (htaken : s.top? = some r → (f true).Yields s.pop Q E)
    (hleft : ∀ message, s.top? ≠ some r →
      (f false).Yields (s.warn .stackDiscipline message) Q E) :
    (popExpected r what >>= f).Yields s Q E := by
  refine yields_bind ?_
  unfold Yields
  rw [popExpected_eq]
  by_cases h : s.top? = some r
  · rw [if_pos h]
    exact .ok (htaken h)
  · rw [if_neg h]
    exact .ok (hleft _ h)

theorem yields_popExpected (s : Session) (r : Ref) (what : String) :
    (discard (popExpected r what)).Yields s (fun _ s' => s.Popped r s') fun _ _ => False :=
  yields_popExpected_bind (fun h => yields_pure (.taken h)) fun _ h => yields_pure (.left h)

end Phase

namespace Actions

open Phase

variable (element : String) (attributes : Attributes) (s : Session)

/-! ### Context -/

theorem beginConfiguration_yields :
    (beginConfiguration element attributes).Yields s
      (fun data s' => data = none ∧ ∃ debug ds, s' = { s.reporting ds with debug })
      fun _ s' => s' = s := by
  refine yields_reads_bind (reads_attribute? _ _) (fun flag? _ => ?_) fun _ _ => rfl
  cases flag? with
  | none => exact yields_pure ⟨rfl, s.debug, [], s.reporting_nil.symm⟩
  | some flag =>
    dsimp only
    split
    · exact yields_modify_bind (yields_info_bind (yields_pure ⟨rfl, true, [.info _], rfl⟩))
    · split
      · exact yields_pure ⟨rfl, s.debug, [], s.reporting_nil.symm⟩
      · exact yields_info_bind (yields_pure ⟨rfl, s.debug, [.info _], rfl⟩)

theorem nameContext_yields (text : String) (data : Option ActionData) :
    (nameContext element text data).Yields s
      (fun _ s' => ∃ place c name renamed ds, s.substitute text = .ok name ∧
        s.context? = some (place, c) ∧ c.rename (Text.trim name) = .ok renamed ∧
        s' = { s.reporting ds with graph := s.graph.put place (.context renamed) })
      fun _ s' => s' = s := by
  refine yields_reads_bind (reads_substitute _) (fun name hname => ?_) fun _ _ => rfl
  refine yields_reads_bind reads_context (fun place hplace => ?_) fun _ _ => rfl
  obtain ⟨r, c⟩ := place
  dsimp only
  cases hr : c.rename (Text.trim name) with
  | error reason => exact yields_fail rfl
  | ok renamed =>
    exact .ok ⟨r, c, name, renamed, [.info _], of_substitute hname, of_context hplace, hr, rfl⟩

theorem beginConversionRule_yields :
    (beginConversionRule element attributes).Yields s
      (fun data s' => data = none ∧ ∃ place c word converter ds, s.context? = some (place, c) ∧
        s' = { s.reporting ds with
          graph := s.graph.put place (.context (c.putConversionRule word converter)) })
      fun _ s' => s' = s := by
  refine yields_reads_bind (reads_requiredAttribute _ _ _) (fun word _ => ?_) fun _ _ => rfl
  refine yields_reads_bind (reads_requiredAttribute _ _ _) (fun converter _ => ?_) fun _ _ => rfl
  refine yields_reads_bind reads_context (fun place hplace => ?_) fun _ _ => rfl
  obtain ⟨r, c⟩ := place
  refine yields_modify_bind ?_
  dsimp only
  split
  · exact .ok ⟨rfl, r, c, word, converter, [.warning _ _], of_context hplace, rfl⟩
  · exact .ok ⟨rfl, r, c, word, converter, [.info _], of_context hplace, rfl⟩

/-- A session with properties defined in a scope, one after the other. -/
def definingAll (scope : PropertyScope) (s : Session) (entries : List (String × String)) : Session :=
  entries.foldl (fun s (key, value) => defineIn scope s key value) s

theorem defineIn_reporting (scope : PropertyScope) (ds : List Remark) (key value : String) :
    defineIn scope (s.reporting ds) key value = (defineIn scope s key value).reporting ds := by
  have defined : (s.reporting ds).defineProperty key value =
      (s.defineProperty key value).reporting ds := by
    unfold Session.defineProperty
    split
    · rfl
    · rfl
  unfold defineIn
  rw [defined]
  cases scope with
  | session => rfl
  | context =>
    dsimp only
    generalize s.defineProperty key value = t
    unfold Session.modifyContext
    rw [show (t.reporting ds).context? = t.context? from rfl]
    cases t.context? with
    | none => rfl
    | some place => rfl

theorem definingAll_reporting (scope : PropertyScope) (ds : List Remark)
    (entries : List (String × String)) :
    definingAll scope (s.reporting ds) entries = (definingAll scope s entries).reporting ds := by
  unfold definingAll
  induction entries generalizing s with
  | nil => rfl
  | cons entry rest ih =>
    obtain ⟨key, value⟩ := entry
    rw [List.foldl_cons, List.foldl_cons, ← ih]
    exact congrArg (fun t => definingAll scope t rest) (defineIn_reporting s scope ds key value)

/-- A property is kept in the session or in its context, and nothing else changes. -/
theorem exists_defineIn_eq (scope : PropertyScope) (key value : String) :
    ∃ graph properties, defineIn scope s key value = { s with graph, properties } := by
  obtain ⟨properties, hlocal⟩ : ∃ properties,
      s.defineProperty key value = { s with properties } := by
    unfold Session.defineProperty
    split
    · exact ⟨s.properties, rfl⟩
    · exact ⟨_, rfl⟩
  unfold defineIn
  rw [hlocal]
  cases scope with
  | session => exact ⟨s.graph, properties, rfl⟩
  | context =>
    dsimp only
    unfold Session.modifyContext
    split
    · exact ⟨_, properties, rfl⟩
    · exact ⟨s.graph, properties, rfl⟩

theorem exists_definingAll_eq (scope : PropertyScope) (entries : List (String × String)) :
    ∃ graph properties, definingAll scope s entries = { s with graph, properties } := by
  induction entries generalizing s with
  | nil => exact ⟨s.graph, s.properties, rfl⟩
  | cons entry rest ih =>
    obtain ⟨key, value⟩ := entry
    obtain ⟨graph, properties, hdefined⟩ := exists_defineIn_eq s scope key value
    obtain ⟨graph', properties', hrest⟩ := ih { s with graph, properties }
    exact ⟨graph', properties', (congrArg (definingAll scope · rest) hdefined).trans hrest⟩

theorem propertyScope_yields (scope : Option String) :
    (propertyScope scope).Yields s (fun _ s' => ∃ ds, s' = s.reporting ds)
      fun _ s' => s' = s := by
  cases scope with
  | none => exact yields_pure ⟨[], s.reporting_nil.symm⟩
  | some scope =>
    unfold propertyScope
    dsimp only
    split
    · exact yields_pure ⟨[], s.reporting_nil.symm⟩
    · split
      · exact yields_pure ⟨[], s.reporting_nil.symm⟩
      · exact .ok ⟨[.warning _ _], rfl⟩

theorem loadProperties_yields (scope : PropertyScope) (path : String) :
    (loadProperties scope path).Yields s
      (fun _ s' => ∃ entries, s' = definingAll scope s entries) fun _ s' => s' = s := by
  refine yields_get_bind ?_
  cases s.environment.readText path with
  | error problem => exact yields_fail rfl
  | ok text => exact .ok ⟨_, rfl⟩

theorem beginProperty_yields :
    (beginProperty element attributes).Yields s
      (fun data s' => data = none ∧
        ∃ scope entries ds, s' = (definingAll scope s entries).reporting ds)
      fun _ s' => ∃ ds, s' = s.reporting ds := by
  have unread : ∃ ds, s = s.reporting ds := ⟨[], s.reporting_nil.symm⟩
  refine yields_reads_bind (reads_attribute? _ _) (fun name _ => ?_) fun _ _ => unread
  refine yields_reads_bind (reads_attribute? _ _) (fun value _ => ?_) fun _ _ => unread
  refine yields_reads_bind (reads_attribute? _ _) (fun file _ => ?_) fun _ _ => unread
  refine yields_reads_bind (reads_attribute? _ _) (fun scope? _ => ?_) fun _ _ => unread
  refine yields_bind ((propertyScope_yields s scope?).mono (fun scope s₁ hs₁ => ?_) fun _ _ he => ?_)
  · obtain ⟨ds, rfl⟩ := hs₁
    dsimp only
    split
    · exact .ok ⟨rfl, scope, [(_, _)], ds, defineIn_reporting s scope ds _ _⟩
    · refine yields_bind ((loadProperties_yields _ scope _).mono (fun count s₂ hs₂ => ?_)
        fun _ _ he => ⟨ds, he⟩)
      obtain ⟨entries, rfl⟩ := hs₂
      refine yields_info_bind (yields_pure ⟨rfl, scope, entries, ?_⟩)
      rw [definingAll_reporting]
      exact ⟨_, Session.reporting_reporting _ ds [.info _]⟩
    · exact .failed ⟨ds, rfl⟩
  · rw [he]
    exact unread

theorem beginNewRule_yields :
    (beginNewRule element attributes).Yields s
      (fun data s' => data = none ∧ ∃ pattern actionClass ds,
        s' = (s.requestRule pattern actionClass).reporting ds)
      fun _ s' => s' = s := by
  refine yields_reads_bind (reads_requiredAttribute _ _ _) (fun pattern _ => ?_) fun _ _ => rfl
  refine yields_reads_bind (reads_requiredAttribute _ _ _) (fun cls _ => ?_) fun _ _ => rfl
  exact .ok ⟨rfl, _, cls, [.info _], rfl⟩

/-! ### Loggers -/

theorem adjusted_of_setLevel {g g' : Graph} {r : Ref} {token : String}
    (h : setLevel g r token = .ok g') : g.Adjusted r g' := by
  unfold setLevel at h
  cases hl : levelOfToken token with
  | error e =>
    rw [hl] at h
    cases h
  | ok level =>
    rw [hl] at h
    dsimp only at h
    cases hlogger : g.logger? r with
    | none =>
      rw [hlogger] at h
      cases h
    | some l =>
      rw [hlogger] at h
      dsimp only at h
      unfold Graph.modifyLogger at h
      rw [hlogger] at h
      split at h
      · cases h
      · next hroot =>
        cases h
        refine .level hlogger fun hnone => ?_
        rw [hnone] at hroot
        simpa using hroot

theorem levelAttribute_yields (r : Ref) :
    (levelAttribute attributes r).Yields s
      (fun _ s' => ∃ graph ds, s.graph.Adjusted r graph ∧ s' = { s.reporting ds with graph })
      fun e s' => s' = s ∧ attribute? attributes "level" s = .error (.failed e) s := by
  refine yields_reads_bind (reads_attribute? _ _) (fun token? _ => ?_) fun e he => ⟨rfl, he⟩
  cases token? with
  | none => exact .ok ⟨s.graph, [], .kept, s.reporting_nil.symm⟩
  | some token =>
    dsimp only
    refine yields_get_bind ?_
    cases hl : setLevel s.graph r token with
    | error e => exact .ok ⟨s.graph, [.error _ _], .kept, rfl⟩
    | ok graph => exact .ok ⟨graph, [.info _], adjusted_of_setLevel hl, rfl⟩

theorem additivityAttribute_yields (name : String) (r : Ref) :
    (additivityAttribute attributes name r).Yields s
      (fun _ s' => ∃ graph ds, s.graph.Adjusted r graph ∧ s' = { s.reporting ds with graph })
      fun e s' => s' = s ∧ attribute? attributes "additivity" s = .error (.failed e) s := by
  refine yields_reads_bind (reads_attribute? _ _) (fun text? _ => ?_) fun e he => ⟨rfl, he⟩
  cases text? with
  | none => exact .ok ⟨s.graph, [], .kept, s.reporting_nil.symm⟩
  | some text =>
    dsimp only
    split
    · next additive _ =>
      refine .ok ⟨_, [.info _], ?_, rfl⟩
      dsimp only
      unfold Graph.modifyLogger
      cases hl : s.graph.logger? r with
      | none => exact .kept
      | some l => exact .additive hl
    · exact .ok ⟨s.graph, [.error _ _], .kept, rfl⟩

theorem namedLogger_yields (name : String) :
    (namedLogger name).Yields s
      (fun r s' => ∃ graph, s.HasLogger name graph r ∧ s' = { s with graph })
      fun _ s' => s' = s := by
  refine yields_reads_bind reads_context (fun place hplace => ?_) fun _ _ => rfl
  obtain ⟨place, c⟩ := place
  have hcontext := of_context hplace
  refine yields_get_bind (yields_set_bind (yields_pure ⟨_, ?_, rfl⟩))
  cases hf : c.find? name with
  | some r => exact .known hcontext hf
  | none => exact .plain hcontext hf

theorem loggerOfClass_yields (name className : String) :
    (loggerOfClass name className).Yields s
      (fun r s' => ∃ graph ds, s.HasLogger name graph r ∧ s' = { s.reporting ds with graph })
      fun _ s' => ∃ ds, s' = s.reporting ds := by
  have unread : ∃ ds, s = s.reporting ds := ⟨[], s.reporting_nil.symm⟩
  refine yields_get_bind
    (yields_reads_bind (reads_ofExcept _) (fun c hc => ?_) fun _ _ => unread)
  have hinstance := of_ofExcept hc
  dsimp only
  split
  · next prototype =>
    refine yields_reads_bind reads_context (fun place hplace => ?_) fun _ _ => unread
    obtain ⟨place, c⟩ := place
    have hcontext := of_context hplace
    refine yields_get_bind ?_
    dsimp only
    unfold Graph.adoptLogger
    cases hf : c.find? name with
    | some r => exact .ok ⟨s.graph, [.warning _ _], .known hcontext hf, rfl⟩
    | none => exact .ok ⟨_, [.info _], .ofClass hcontext hf hinstance, rfl⟩
  · refine yields_warn_bind ((namedLogger_yields _ name).mono (fun r s' hs' => ?_) fun _ _ he => ?_)
    · obtain ⟨graph, hlogger, rfl⟩ := hs'
      refine ⟨graph, [.warning _ _], ?_, rfl⟩
      cases hlogger with
      | known hcontext hf => exact .known hcontext hf
      | plain hcontext hf => exact .plain hcontext hf
      | ofClass hcontext hf hi => exact .ofClass hcontext hf hi
    · exact ⟨[.warning _ _], he⟩

/-- A logger is declared, adjusted twice and pushed. A failure before it is declared leaves the
session as it was but for a warning; one to read its level or its additivity comes after. -/
theorem beginLogger_yields :
    (beginLogger element attributes).Yields s
      (fun data s' => ∃ name declared r leveled graph ds, s.HasLogger name declared r ∧
        declared.Adjusted r leveled ∧ leveled.Adjusted r graph ∧ data = some (.component r) ∧
        s' = { s.reporting ds with graph, stack := r :: s.stack })
      fun e s' => (∃ ds, s' = s.reporting ds) ∨
        ∃ name declared r leveled ds, s.HasLogger name declared r ∧ declared.Adjusted r leveled ∧
          s' = { s.reporting ds with graph := leveled } ∧
          (leveled = declared ∧ attribute? attributes "level" s' = .error (.failed e) s' ∨
            attribute? attributes "additivity" s' = .error (.failed e) s') := by
  have unread : ∃ ds, s = s.reporting ds := ⟨[], s.reporting_nil.symm⟩
  refine yields_reads_bind (reads_requiredAttribute _ _ _) (fun name _ => ?_)
    fun _ _ => .inl unread
  refine yields_reads_bind (reads_attribute? _ _) (fun className? _ => ?_) fun _ _ => .inl unread
  have settled : ∀ declared r ds, s.HasLogger name declared r → (do
      levelAttribute attributes r
      additivityAttribute attributes name r
      push r
      pure (some (.component r)) : Phase (Option ActionData)).Yields
        { s.reporting ds with graph := declared }
      (fun data s' => ∃ name declared r leveled graph ds, s.HasLogger name declared r ∧
        declared.Adjusted r leveled ∧ leveled.Adjusted r graph ∧ data = some (.component r) ∧
        s' = { s.reporting ds with graph, stack := r :: s.stack })
      fun e s' => (∃ ds, s' = s.reporting ds) ∨
        ∃ name declared r leveled ds, s.HasLogger name declared r ∧ declared.Adjusted r leveled ∧
          s' = { s.reporting ds with graph := leveled } ∧
          (leveled = declared ∧ attribute? attributes "level" s' = .error (.failed e) s' ∨
            attribute? attributes "additivity" s' = .error (.failed e) s') := by
    intro declared r ds hlogger
    refine yields_bind ((levelAttribute_yields attributes _ r).mono (fun _ s₁ hs₁ => ?_)
      fun e s' he => ?_)
    · obtain ⟨leveled, ds₁, hleveled, rfl⟩ := hs₁
      refine yields_bind ((additivityAttribute_yields attributes _ name r).mono
        (fun _ s₂ hs₂ => ?_) fun e s' he => ?_)
      · obtain ⟨graph, ds₂, hgraph, rfl⟩ := hs₂
        exact .ok ⟨name, declared, r, leveled, graph, ds ++ ds₁ ++ ds₂, hlogger, hleveled, hgraph, rfl,
          by simp [Session.reporting, Session.push]⟩
      · obtain ⟨rfl, hread⟩ := he
        exact .inr ⟨name, declared, r, leveled, ds ++ ds₁, hlogger, hleveled,
          by simp [Session.reporting], .inr hread⟩
    · obtain ⟨rfl, hread⟩ := he
      exact .inr ⟨name, declared, r, declared, ds, hlogger, .kept, rfl, .inl ⟨rfl, hread⟩⟩
  cases className? with
  | none =>
    refine yields_bind ((namedLogger_yields s name).mono (fun r s₁ hs₁ => ?_)
      fun _ _ he => .inl ⟨[], he.trans s.reporting_nil.symm⟩)
    obtain ⟨declared, hlogger, rfl⟩ := hs₁
    have := settled declared r [] hlogger
    rwa [s.reporting_nil] at this
  | some className =>
    refine yields_bind ((loggerOfClass_yields s name className).mono (fun r s₁ hs₁ => ?_)
      fun _ _ he => .inl he)
    obtain ⟨declared, ds, hlogger, rfl⟩ := hs₁
    exact settled declared r ds hlogger

theorem beginRoot_yields :
    (beginRoot element attributes).Yields s
      (fun data s' => ∃ place c graph ds, s.context? = some (place, c) ∧
        s.graph.Adjusted c.root graph ∧ data = some (.component c.root) ∧
        s' = { s.reporting ds with graph, stack := c.root :: s.stack })
      fun _ s' => s' = s := by
  refine yields_reads_bind reads_context (fun place hplace => ?_) fun _ _ => rfl
  obtain ⟨place, c⟩ := place
  refine yields_bind ((levelAttribute_yields attributes s c.root).mono (fun _ s₁ hs₁ => ?_)
    fun _ _ he => he.1)
  obtain ⟨graph, ds, hgraph, rfl⟩ := hs₁
  exact .ok ⟨place, c, graph, ds, of_context hplace, hgraph, rfl, rfl⟩

theorem applyLevel_yields (r : Ref) (token : String) :
    (applyLevel r token).Yields s
      (fun _ s' => ∃ graph ds, s.graph.Adjusted r graph ∧ s' = { s.reporting ds with graph })
      fun _ s' => s' = s := by
  refine yields_get_bind ?_
  cases hl : setLevel s.graph r token with
  | error e => exact yields_fail rfl
  | ok graph => exact .ok ⟨graph, [.info _], adjusted_of_setLevel hl, rfl⟩

theorem beginLevel_yields :
    (beginLevel element attributes).Yields s
      (fun data s' => data = none ∧ ∃ r graph ds, s.top? = some r ∧ s.graph.Adjusted r graph ∧
        s' = { s.reporting ds with graph })
      fun _ s' => s' = s := by
  refine yields_reads_bind (reads_requiredAttribute _ _ _) (fun token _ => ?_) fun _ _ => rfl
  refine yields_reads_bind reads_top (fun r hr => ?_) fun _ _ => rfl
  refine yields_bind ((applyLevel_yields s r token).mono (fun _ s₁ hs₁ => ?_) fun _ _ he => he)
  obtain ⟨graph, ds, hgraph, rfl⟩ := hs₁
  exact yields_pure ⟨rfl, r, graph, ds, of_top hr, hgraph, rfl⟩

theorem finishPushed_yields (what : String) (r : Ref) :
    (finishPushed what element (some (.component r))).Yields s (fun _ s' => s.Popped r s')
      fun _ _ => False :=
  yields_popExpected s r what

/-! ### Appenders -/

theorem nameAppender_yields (r : Ref) (name : String) :
    (nameAppender r name).Yields s
      (fun _ s' => ∃ c named ds, s.graph.get? r = some c ∧ c.setFromText "name" name = .ok named ∧
        s' = { (s.reporting ds).keepAppender name r with graph := s.graph.put r named })
      fun _ s' => s' = s := by
  refine yields_changeGraph_bind (fun graph hgraph => ?_) fun _ => rfl
  obtain ⟨c, named, hc, hnamed, rfl⟩ := Graph.update_eq_ok hgraph
  refine yields_info_bind (yields_get_bind (yields_modify_bind ?_))
  split
  · exact yields_modify ⟨c, named, _, hc, hnamed,
      congrArg (fun t : Session => { t.keepAppender name r with graph := s.graph.put r named })
        (s.reporting_reporting [.info _] [.warning _ _])⟩
  · exact yields_pure ⟨c, named, [.info _], hc, hnamed, rfl⟩

/-- An appender is created, named and kept under its name where it has one, and pushed. -/
theorem beginAppender_yields :
    (beginAppender element attributes).Yields s
      (fun data s' => ∃ className c ds, s.classes.instanceOfKind? className .appender = .ok c ∧
        data = some (.component s.graph.next) ∧
        (s' = { s.reporting ds with
            graph := s.graph.add c, stack := s.graph.next :: s.stack } ∨
          ∃ name named, c.setFromText "name" name = .ok named ∧
            s' = { (s.reporting ds).keepAppender name s.graph.next with
              graph := (s.graph.add c).put s.graph.next named
              stack := s.graph.next :: s.stack }))
      fun _ s' => s' = s ∨ ∃ className c ds,
        s.classes.instanceOfKind? className .appender = .ok c ∧
          s' = { s.reporting ds with graph := s.graph.add c } := by
  refine yields_reads_bind (reads_requiredAttribute _ _ _) (fun className _ => ?_)
    fun _ _ => .inl rfl
  refine yields_instantiate_bind (fun c hc => yields_info_bind ?_) fun _ => .inl rfl
  refine yields_reads_bind (reads_attribute? _ _) (fun name? _ => ?_)
    fun _ _ => .inr ⟨className, c, [.info _], hc, rfl⟩
  cases name? with
  | none =>
    exact yields_warn_bind (yields_modify_bind (yields_pure ⟨className, c, _, hc, rfl, .inl
      (congrArg (fun t : Session =>
        { t with graph := s.graph.add c, stack := s.graph.next :: s.stack })
        (s.reporting_reporting [.info _] [.warning _ _]))⟩))
  | some name =>
    refine yields_bind ((nameAppender_yields _ _ name).mono (fun _ s₁ hs₁ => ?_)
      fun _ _ he => .inr ⟨className, c, [.info _], hc, he⟩)
    obtain ⟨c', named, ds, hc', hnamed, rfl⟩ := hs₁
    obtain rfl : c = c' := by
      simpa [Session.info, Session.record] using hc'
    exact yields_modify_bind (yields_pure ⟨className, c, _, hc, rfl, .inr ⟨name, named, hnamed,
      congrArg (fun t : Session => { t.keepAppender name s.graph.next with
        graph := (s.graph.add c).put s.graph.next named, stack := s.graph.next :: s.stack })
        (s.reporting_reporting [.info _] ds)⟩⟩)

theorem finishAppender_yields (r : Ref) :
    (finishAppender element (some (.component r))).Yields s
      (fun _ s' => (s.activated r).Popped r s') fun _ _ => False :=
  yields_activate_bind (yields_popExpected _ r _)

/-- An appender of the session is attached to the object on top of the stack. -/
theorem beginAppenderRef_yields :
    (beginAppenderRef element attributes).Yields s
      (fun data s' => data = none ∧ ∃ target c name appender graph ds, s.top? = some target ∧
        s.graph.get? target = some c ∧ c.aggregation "appender" = .asCollection ∧
        requiredAttribute element attributes "ref" s = .ok name s ∧
        s.appender? name = some appender ∧ s.graph.Attached target appender graph ∧
        s' = { s.reporting ds with graph })
      fun _ s' => s' = s := by
  refine yields_reads_bind (reads_requiredAttribute _ _ _) (fun name hname => ?_) fun _ _ => rfl
  refine yields_reads_bind reads_top (fun target htarget => ?_) fun _ _ => rfl
  refine yields_get_bind ?_
  dsimp only
  split
  · exact yields_fail rfl
  · next hcollects =>
    obtain ⟨c, hc, hcollects⟩ := Option.map_eq_some_iff.1 (Decidable.not_not.1 hcollects)
    refine yields_get_bind (yields_reads_bind (reads_orFail _ _) (fun appender happender => ?_)
      fun _ _ => rfl)
    refine yields_changeGraph_bind (fun graph hgraph => ?_) fun _ => rfl
    exact yields_get_bind (yields_info_bind (yields_pure ⟨rfl, target, c, name, appender, graph,
      [.info _], of_top htarget, hc, hcollects, hname, of_orFail happender,
      Graph.attached_of_addToCollection hgraph, rfl⟩))

theorem beginLayout_yields :
    (beginLayout element attributes).Yields s
      (fun data s' => ∃ className c, s.classes.instanceOfKind? className .layout = .ok c ∧
        data = some (.component s.graph.next) ∧
        s' = { s with graph := s.graph.add c, stack := s.graph.next :: s.stack })
      fun _ s' => s' = s := by
  refine yields_reads_bind (reads_requiredAttribute _ _ _) (fun className _ => ?_) fun _ _ => rfl
  refine yields_instantiate_bind (fun c hc => ?_) fun _ => rfl
  exact yields_modify_bind (yields_pure ⟨className, c, hc, rfl, rfl⟩)

theorem finishLayout_yields (child : Ref) :
    (finishLayout element (some (.component child))).Yields s
      (fun _ s' => s.Delivered child s.stack.tail.head? s')
      fun _ s' => s.top? = some child ∧ s' = (s.activated child).pop := by
  refine yields_activate_bind (yields_popExpected_bind (fun htop => ?_) fun message htop => ?_)
  · rw [Session.top?_activated] at htop
    refine yields_get_bind (yields_reads_bind (reads_orFail _ _) (fun parent hparent => ?_)
      fun _ _ => ⟨htop, rfl⟩)
    have hbelow : s.stack.tail.head? = some parent := by
      have hread : (s.activated child).stack.tail.head? = some parent := of_orFail hparent
      rwa [Session.stack_activated] at hread
    refine yields_changeGraph (fun graph hgraph => ?_) fun _ => ⟨htop, rfl⟩
    exact .attached htop hbelow (Graph.attached_of_fillSlot hgraph)
  · rw [Session.top?_activated] at htop
    exact yields_pure (.left htop)

/-! ### Nested elements -/

/-- A property of the object on top of the stack is set, under the name and to the value that the
attributes give, or what is wrong with it is recorded. -/
theorem beginParam_sets :
    (beginParam element attributes).Yields s
      (fun data s' => data = none ∧ ((∃ ds, s' = s.reporting ds) ∨
        ∃ target c c' name raw value,
          requiredAttribute element attributes "name" s = .ok name s ∧
          Entries.find? "value" attributes = some raw ∧ s.substitute raw = .ok value ∧
          s.top? = some target ∧ s.graph.get? target = some c ∧
          c.setFromText name (Text.trim value) = .ok c' ∧
          s' = { s with graph := s.graph.put target c' }))
      fun _ s' => s' = s := by
  refine yields_reads_bind (reads_requiredAttribute _ _ _) (fun name hname => ?_) fun _ _ => rfl
  refine yields_reads_bind (reads_orFail _ _) (fun raw hraw => ?_) fun _ _ => rfl
  refine yields_reads_bind (reads_substitute _) (fun value hvalue => ?_) fun _ _ => rfl
  refine yields_reads_bind reads_top (fun target htarget => ?_) fun _ _ => rfl
  refine yields_get_bind ?_
  dsimp only
  split
  · next graph hset =>
    obtain ⟨c, c', hc, hc', rfl⟩ := Graph.update_eq_ok hset
    exact yields_set_bind (yields_pure ⟨rfl, .inr ⟨target, c, c', name, raw, value, hname,
      of_orFail hraw, of_substitute hvalue, of_top htarget, hc, hc', rfl⟩⟩)
  · exact yields_set_bind (yields_pure ⟨rfl, .inl ⟨[(Remark.warning _ _).withCause _], rfl⟩⟩)
  · exact yields_modify_bind (yields_pure ⟨rfl, .inl ⟨[.error _ _], rfl⟩⟩)

theorem beginParam_yields :
    (beginParam element attributes).Yields s
      (fun data s' => data = none ∧ ((∃ ds, s' = s.reporting ds) ∨
        ∃ target c c' name text, s.top? = some target ∧ s.graph.get? target = some c ∧
          c.setFromText name text = .ok c' ∧ s' = { s with graph := s.graph.put target c' }))
      fun _ s' => s' = s := by
  refine (beginParam_sets element attributes s).mono (fun data s' hs' => ⟨hs'.1, ?_⟩)
    fun _ _ he => he
  refine hs'.2.imp_right ?_
  rintro ⟨target, c, c', name, raw, value, -, -, -, htop, hc, hset, hs'⟩
  exact ⟨target, c, c', name, _, htop, hc, hset, hs'⟩

theorem beginNestedComponent_yields :
    (beginNestedComponent element attributes).Yields s
      (fun data s' => ∃ parent c kind className child, s.top? = some parent ∧
        s.graph.get? parent = some c ∧ c.childKind? element = some kind ∧
        s.classes.instanceOfKind? className kind = .ok child ∧
        data = some (.nested parent (c.aggregation element) s.graph.next) ∧
        s' = { s with graph := s.graph.add child, stack := s.graph.next :: s.stack })
      fun _ s' => s' = s := by
  refine yields_reads_bind reads_top (fun parent hparent => ?_) fun _ _ => rfl
  refine yields_get_bind (yields_reads_bind (reads_orFail _ _) (fun kind hkind => ?_) fun _ _ => rfl)
  obtain ⟨c, hc, hkind⟩ := Option.bind_eq_some_iff.1 (of_orFail hkind)
  refine yields_reads_bind (reads_requiredAttribute _ _ _) (fun className _ => ?_) fun _ _ => rfl
  refine yields_instantiate_bind (fun child hchild => ?_) fun _ => rfl
  refine yields_modify_bind (yields_pure
    ⟨parent, c, kind, className, child, of_top hparent, hc, hkind, hchild, ?_, rfl⟩)
  rw [hc]
  rfl

theorem finishNestedComponent_yields (parent child : Ref) (aggregation : Aggregation) :
    (finishNestedComponent element (some (.nested parent aggregation child))).Yields s
      (fun _ s' => s.Delivered child (some parent) s')
      fun _ s' => s.top? = some child ∧ s' = (s.activated child).pop := by
  refine yields_activate_bind (yields_popExpected_bind (fun htop => ?_) fun message htop => ?_)
  · rw [Session.top?_activated] at htop
    rw [if_pos rfl]
    refine yields_changeGraph (fun graph hgraph => ?_) fun _ => ⟨htop, rfl⟩
    exact .attached htop rfl (Graph.attached_of_attach hgraph)
  · rw [Session.top?_activated] at htop
    exact yields_pure (.left htop)

theorem nestedProperty_begin_yields :
    (nestedProperty.begin element attributes).Yields s
      (fun data s' => ∃ parent, s.top? = some parent ∧ data = some (.owner parent) ∧ s' = s)
      fun _ s' => s' = s := by
  refine yields_reads_bind reads_top (fun parent hparent => ?_) fun _ _ => rfl
  exact yields_pure ⟨parent, of_top hparent, rfl, rfl⟩

/-- The property that an element is named after is set to its text, or what is wrong with it is
recorded. -/
theorem setFromBody_sets (text : String) (parent : Ref) :
    (setFromBody element text (some (.owner parent))).Yields s
      (fun _ s' => (∃ ds, s' = s.reporting ds) ∨
        ∃ c c' value, s.substitute text = .ok value ∧ s.graph.get? parent = some c ∧
          c.setFromText element value = .ok c' ∧
          s' = { s with graph := s.graph.put parent c' })
      fun _ s' => s' = s := by
  refine yields_reads_bind (reads_substitute _) (fun value hvalue => ?_) fun _ _ => rfl
  refine yields_get_bind ?_
  split
  · next graph hset =>
    obtain ⟨c, c', hc, hc', rfl⟩ := Graph.update_eq_ok hset
    exact yields_set (.inr ⟨c, c', value, of_substitute hvalue, hc, hc', rfl⟩)
  · exact yields_modify (.inl ⟨[.error _ _], rfl⟩)

theorem setFromBody_yields (text : String) (parent : Ref) :
    (setFromBody element text (some (.owner parent))).Yields s
      (fun _ s' => (∃ ds, s' = s.reporting ds) ∨
        ∃ c c' value, s.graph.get? parent = some c ∧ c.setFromText element value = .ok c' ∧
          s' = { s with graph := s.graph.put parent c' })
      fun _ s' => s' = s := by
  refine (setFromBody_sets element s text parent).mono (fun _ s' hs' => hs'.imp_right ?_)
    fun _ _ he => he
  rintro ⟨c, c', value, -, hc, hset, hs'⟩
  exact ⟨c, c', value, hc, hset, hs'⟩

end Actions
end LogConfig
