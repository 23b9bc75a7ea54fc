import LogConfig.Proofs.Lifecycle.Rules
import LogConfig.Proofs.Stack.Elements

/-
  Elements keep sessions in order. The stack is layered like the open elements (`Layered`): each of
  them has one action at most, which holds one object at most on top of what lay on the stack when
  the element started (`Sits`). A start adds a layer and an end takes it off again, so the objects
  of an element are gone when it has ended.

  Proved:
  * `startElement_orderly`, `endElement_orderly`, `stays_flat`: one callback of each sort.
  * `run_advances`: callbacks in which no rule is asked for keep the session in order, and what
    they take from the stack was activated.
  * `run_nested_stack`: nested callbacks leave the stack as it was.
-/

namespace LogConfig

open Session

variable {context : Ref} {s s' : Session}

/-! ### Layers of the stack -/

/-- The stack of an element that started with `below` on it: the action that began for it, if any,
holds what lies above. -/
inductive Sits (context : Ref) (s : Session) : List Invocation → List Ref → List Ref → Prop where
  | nothing {below : List Ref} : Sits context s [] below below
  | one {v : Invocation} {held : Option Ref} {below : List Ref} {began : Session} :
    began.Leads context s → v.action.Keeps context began v.data below held →
    Sits context s [v] below (held.toList ++ below)

/-- The stack of the open elements, innermost first, from the context on. The outermost element
holds nothing. -/
inductive Layered (context : Ref) (s : Session) : List (List Invocation) → List Ref → Prop where
  | base : Layered context s [] [context]
  | element {begun : List Invocation} {outer : List (List Invocation)} {below stack : List Ref} :
    Layered context s outer below → Sits context s begun below stack →
    (outer = [] → stack = below) → Layered context s (begun :: outer) stack

theorem Sits.mono {begun : List Invocation} {below stack : List Ref}
    (h : Sits context s begun below stack) (hs : s.Leads context s') :
    Sits context s' begun below stack := by
  cases h with
  | nothing => exact .nothing
  | one hbegan hkeeps => exact .one (hbegan.trans hs) hkeeps

theorem Layered.mono {openActions : List (List Invocation)} {stack : List Ref}
    (h : Layered context s openActions stack) (hs : s.Leads context s') :
    Layered context s' openActions stack := by
  induction h with
  | base => exact .base
  | element _ hsits houtermost ih => exact .element ih (hsits.mono hs) houtermost

/-- Every element but the outermost adds one object at most to the context. -/
theorem Layered.length_le {openActions : List (List Invocation)} {stack : List Ref}
    (h : Layered context s openActions stack) : stack.length ≤ max 1 openActions.length := by
  induction h with
  | base => exact Nat.le_refl 1
  | @element begun outer below stack hlayered hsits houtermost ih =>
    cases outer with
    | nil =>
      cases hlayered
      rw [houtermost rfl]
      simp
    | cons first outer =>
      have hone : stack.length ≤ below.length + 1 := by
        cases hsits with
        | nothing => exact Nat.le_succ _
        | one _ _ =>
          rw [List.length_append]
          have := Option.length_toList_le (o := ‹Option Ref›)
          omega
      simp only [List.length_cons] at ih ⊢
      omega

/-! ### The phases of an element -/

namespace Scene

/-- In a session in order no rules are to be installed after a phase. -/
theorem after_stays (sc : Scene) {call : Call} (h : call.left.Orderly context) :
    call.left.Stays context (sc.after call).session ∧ (sc.after call).rules = sc.rules := by
  obtain ⟨rules, remarks, hafter, hnone, -⟩ := sc.exists_after_eq call
  have dropped : call.left.Stays context call.left.dropRuleRequests :=
    h.stays_of_eq rfl rfl rfl rfl h.requests.symm rfl
  rw [hafter]
  exact ⟨dropped.trans (dropped.orderly.reporting remarks), hnone h.requests⟩

theorem actionsFor_minds {sc : Scene} (hs : sc.session.Orderly context)
    (hrules : sc.rules.Minds context) {implicit : List ImplicitAction}
    (himplicit : ∀ rule ∈ implicit, ∀ depth, rule.action.Minds context depth) {path : ElementPath}
    (hpath : ∀ name ∈ path.last?, name ∉ newRuleNames) (attributes : Attributes) :
    sc.session.Stays context (sc.actionsFor implicit path attributes).1.session ∧
      (sc.actionsFor implicit path attributes).1.rules = sc.rules ∧
      ((sc.actionsFor implicit path attributes).2 = [] ∨ ∃ a,
        (sc.actionsFor implicit path attributes).2 = [a] ∧ a.Minds context path.size) := by
  unfold actionsFor
  split
  · next actions hmatch => exact ⟨hs.stays, rfl, .inr (hrules path actions hmatch hpath)⟩
  · split
    · next rule hfind =>
      exact ⟨hs.stays, rfl, .inr ⟨_, rfl, himplicit rule (List.mem_of_find?_eq_some hfind) _⟩⟩
    · exact ⟨hs.reporting [.warning _ _], rfl, .inl rfl⟩

/-- A start adds a layer to the stack. -/
theorem beginAll_sits {sc : Scene} (hs : sc.session.Orderly context) {depth : Nat}
    (hlength : sc.session.stack.length ≤ max 1 (depth - 1)) {actions : List Action}
    (ha : actions = [] ∨ ∃ a, actions = [a] ∧ a.Minds context depth) (name : String)
    (attributes : Attributes) :
    sc.session.Leads context (sc.beginAll name attributes actions).1.session ∧
      (sc.beginAll name attributes actions).1.rules = sc.rules ∧
      Sits context (sc.beginAll name attributes actions).1.session
        (sc.beginAll name attributes actions).2.1 sc.session.stack
        (sc.beginAll name attributes actions).1.session.stack ∧
      (depth = 1 →
        (sc.beginAll name attributes actions).1.session.stack = sc.session.stack) := by
  rcases ha with rfl | ⟨a, rfl, ha⟩
  · exact ⟨hs.leads, rfl, .nothing, fun _ => rfl⟩
  · have hbegin := ha name attributes sc.session hs hlength
    let call := Call.begin a name attributes sc.session
    rw [beginAll_cons sc name attributes a [] (rfl : call = _)]
    dsimp only [beginAll]
    cases hb : a.begin name attributes sc.session with
    | ok data session =>
      obtain rfl : call.left = session := congrArg Phase.left hb
      obtain ⟨hleads, held, hstack, hdepth, hkeeps⟩ := hbegin.of_ok hb
      obtain ⟨hstays, hrules⟩ := sc.after_stays hleads.orderly
      have hafter : (sc.after call).session.stack = held.toList ++ sc.session.stack :=
        hstays.stack.trans hstack
      refine ⟨hleads.trans hstays.toLeads, hrules, ?_, fun hone => ?_⟩
      · rw [hafter, show call.begun? = _ from Call.begun?_begin_ok hb]
        exact .one (v := ⟨a, data⟩) hstays.toLeads hkeeps
      · rw [hafter, hdepth hone]
        rfl
    | error signal session =>
      obtain rfl : call.left = session := congrArg Phase.left hb
      obtain ⟨e, -, hkept⟩ := hbegin.of_error hb
      obtain ⟨hstays, hrules⟩ := sc.after_stays hkept.orderly
      have hall := hkept.trans hstays
      refine ⟨hall.toLeads, hrules, ?_, fun _ => hall.stack⟩
      rw [hall.stack, show call.begun? = none from Call.begun?_begin_error hb]
      exact .nothing

theorem bodyAll_stays {sc : Scene} (hs : sc.session.Orderly context) {begun : List Invocation}
    {below : List Ref} (hsits : Sits context sc.session begun below sc.session.stack)
    (name text : String) :
    sc.session.Stays context (sc.bodyAll name text begun).1.session ∧
      (sc.bodyAll name text begun).1.rules = sc.rules ∧
      (sc.bodyAll name text begun).2.1 = begun := by
  generalize hst : sc.session.stack = stack at hsits
  cases hsits with
  | nothing => exact ⟨hs.stays, rfl, rfl⟩
  | @one v held _ began hbegan hkeeps =>
    obtain ⟨hcomes, hdata⟩ := hkeeps.body name text sc.session hbegan hst
    let call := Call.body v.action name text v.data sc.session
    have hstays : sc.session.Stays context call.left :=
      hcomes.left (fun _ _ hs' => hs') fun _ _ hs' => hs'
    obtain ⟨hafter, hrules⟩ := sc.after_stays hstays.orderly
    rw [bodyAll_cons sc name text v [] (rfl : call = _)]
    refine ⟨hstays.trans hafter, hrules, ?_⟩
    show [Invocation.mk v.action (v.action.body name text v.data sc.session).2] = [v]
    rw [hdata]

/-- An end takes its layer off the stack. -/
theorem finishAll_releases {sc : Scene} (hs : sc.session.Orderly context)
    {begun : List Invocation} {below : List Ref}
    (hsits : Sits context sc.session begun below sc.session.stack) (name : String) :
    sc.session.Releases context below (sc.finishAll name begun).1.session ∧
      (sc.finishAll name begun).1.rules = sc.rules := by
  generalize hst : sc.session.stack = stack at hsits
  cases hsits with
  | nothing => exact ⟨hs.stays.releases hst, rfl⟩
  | @one v held _ began hbegan hkeeps =>
    let call := Call.finish v.action name v.data sc.session
    have hreleases : sc.session.Releases context below call.left :=
      (hkeeps.finish name sc.session hbegan hst).left (fun _ _ hs' => hs') fun _ _ hs' => hs'
    obtain ⟨hstays, hrules⟩ := sc.after_stays hreleases.orderly
    rw [finishAll_cons sc name v [] (rfl : call = _)]
    exact ⟨⟨hreleases.toLeads.trans hstays.toLeads, hstays.stack.trans hreleases.stack,
      fun r hr hlife => (hreleases.activated r hr hlife).imp id hstays.activated⟩, hrules⟩

theorem close_releases {sc : Scene} (hs : sc.session.Orderly context) {begun : List Invocation}
    {below : List Ref} (hsits : Sits context sc.session begun below sc.session.stack)
    (name text : String) :
    sc.session.Releases context below (sc.close name text begun).1.session ∧
      (sc.close name text begun).1.rules = sc.rules := by
  unfold close
  split
  · exact finishAll_releases hs hsits name
  · obtain ⟨hstays, hrules, hbegun⟩ := bodyAll_stays hs hsits name (Text.trim text)
    generalize sc.bodyAll name (Text.trim text) begun = told at hstays hrules hbegun ⊢
    obtain ⟨sc', begun', signals⟩ := told
    dsimp only at hstays hrules hbegun ⊢
    subst hbegun
    have hsits' := hsits.mono hstays.toLeads
    rw [← hstays.stack] at hsits'
    obtain ⟨hreleases, hrules'⟩ := finishAll_releases hstays.orderly hsits' name
    refine ⟨⟨hstays.toLeads.trans hreleases.toLeads, hreleases.stack, fun r hr hlife => ?_⟩,
      hrules'.trans hrules⟩
    exact hreleases.activated r (by rw [hstays.stack]; exact hr) (hstays.variety?_eq hlife)

end Scene

/-! ### Callbacks -/

/-- The event asks for no new rule and does not end the document. -/
def DocumentEvent.Plain : DocumentEvent → Prop
  | startElement name _ => name ∉ newRuleNames
  | endDocument => False
  | _ => True

namespace Interpreter

structure Orderly (context : Ref) (i : Interpreter) : Prop where
  session : i.session.Orderly context
  aligned : i.Aligned
  layered : Layered context i.session i.openActions i.session.stack
  rules : i.rules.Minds context
  implicit : ∀ rule ∈ i.implicit, ∀ depth, rule.action.Minds context depth

variable {i i' i'' : Interpreter}

theorem Aligned.size_eq (h : i.Aligned) : i.path.size = i.openActions.length := by
  unfold openActions
  rw [List.length_map]
  exact h

/-- A start adds a layer to the stack. -/
theorem startElement_orderly (h : i.Orderly context) {name : String} (hname : name ∉ newRuleNames)
    (attributes : Attributes) :
    (i.startElement name attributes).Orderly context ∧
      i.session.Leads context (i.startElement name attributes).session ∧
      ∃ begun, (i.startElement name attributes).openActions = begun :: i.openActions ∧
        Sits context (i.startElement name attributes).session begun i.session.stack
          (i.startElement name attributes).session.stack := by
  have halign : (i.startElement name attributes).Aligned :=
    h.aligned.step (e := .startElement name attributes) nofun
  cases hs : i.state.isSkipping with
  | true =>
    rw [startElement_skipping hs] at halign ⊢
    refine ⟨⟨h.session, halign, ?_, h.rules, h.implicit⟩, h.session.leads, [], rfl, .nothing⟩
    exact .element h.layered .nothing fun _ => rfl
  | false =>
    rw [startElement_eq hs] at halign ⊢
    have hpath : ∀ last ∈ (i.path.push name).last?, last ∉ newRuleNames := by
      rw [ElementPath.last?_push]
      intro last hlast
      cases hlast
      exact hname
    obtain ⟨hstays, hrules, hactions⟩ := Scene.actionsFor_minds
      (show i.scene.session.Orderly context from h.session) h.rules h.implicit hpath attributes
    generalize i.scene.actionsFor i.implicit (i.path.push name) attributes = found
      at hstays hrules hactions halign ⊢
    obtain ⟨sc, actions⟩ := found
    dsimp only at hstays hrules hactions halign ⊢
    have hdepth : (i.path.push name).size = i.openActions.length + 1 := by
      rw [ElementPath.size_push, h.aligned.size_eq]
    have hlength : sc.session.stack.length ≤ max 1 ((i.path.push name).size - 1) := by
      rw [hstays.stack, hdepth, Nat.add_sub_cancel]
      exact h.layered.length_le
    obtain ⟨hleads, hrules', hsits, hone⟩ :=
      Scene.beginAll_sits hstays.orderly hlength hactions name attributes
    generalize sc.beginAll name attributes actions = begun at hleads hrules' hsits hone halign ⊢
    obtain ⟨sc', begun, signals⟩ := begun
    dsimp only at hleads hrules' hsits hone halign ⊢
    have hall := hstays.toLeads.trans hleads
    rw [show sc.session.stack = i.session.stack from hstays.stack] at hsits hone
    refine ⟨⟨hleads.orderly, halign, ?_, ?_, h.implicit⟩, hall, begun, rfl, hsits⟩
    · refine .element (h.layered.mono hall) hsits fun houter => hone ?_
      rw [hdepth, show i.openActions = [] from houter]
      rfl
    · show sc'.rules.Minds context
      rw [hrules', show sc.rules = i.rules from hrules]
      exact h.rules

theorem closeFrame_releases (h : i.session.Orderly context) {frame : Frame} {below : List Ref}
    (hsits : Sits context i.session frame.invocations below i.session.stack) (name : String)
    (delivers : Bool) :
    i.session.Releases context below (i.closeFrame name frame delivers).session ∧
      (i.closeFrame name frame delivers).rules = i.rules ∧
      (i.closeFrame name frame delivers).implicit = i.implicit := by
  cases delivers with
  | true =>
    obtain ⟨hreleases, hrules⟩ :=
      Scene.close_releases (show i.scene.session.Orderly context from h) hsits name frame.text
    rw [closeFrame_eq]
    generalize i.scene.close name frame.text frame.invocations = told at hreleases hrules ⊢
    exact ⟨hreleases, hrules, rfl⟩
  | false =>
    obtain ⟨hreleases, hrules⟩ :=
      Scene.finishAll_releases (show i.scene.session.Orderly context from h) hsits name
    rw [closeFrame_false]
    generalize i.scene.finishAll name frame.invocations = told at hreleases hrules ⊢
    exact ⟨hreleases, hrules, rfl⟩

/-- An end takes its layer off the stack. -/
theorem endElement_orderly (h : i.Orderly context) {begun : List Invocation}
    {outer : List (List Invocation)} (ho : i.openActions = begun :: outer) (name : String) :
    (i.endElement name).Orderly context ∧ (i.endElement name).openActions = outer ∧
      ∀ below, Sits context i.session begun below i.session.stack →
        i.session.Releases context below (i.endElement name).session := by
  have halign : (i.endElement name).Aligned := h.aligned.step (e := .endElement name) nofun
  obtain ⟨frame, frames, hf, rfl, rfl⟩ := List.map_eq_cons_iff.1 ho
  have hopen : (i.endElement name).openActions = frames.map Frame.invocations := by
    unfold openActions
    rw [(endElement_shape hf name).2]
  have released : ∀ below, Sits context i.session frame.invocations below i.session.stack →
      i.session.Releases context below (i.endElement name).session ∧
        (i.endElement name).rules = i.rules ∧ (i.endElement name).implicit = i.implicit := by
    intro below hsits
    unfold endElement
    rw [hf]
    exact closeFrame_releases (i := { i with frames, state := _ }) h.session hsits name _
  have hlayered := h.layered
  rw [ho] at hlayered
  cases hlayered with
  | element houter hsits _ =>
    obtain ⟨hreleases, hrules, himplicit⟩ := released _ hsits
    refine ⟨⟨hreleases.orderly, halign, ?_, by rw [hrules]; exact h.rules,
      by rw [himplicit]; exact h.implicit⟩, hopen, fun below hb => (released below hb).1⟩
    rw [hopen, hreleases.stack]
    exact houter.mono hreleases.toLeads

/-- An end tag with no element open is only recorded, as is everything else that is no tag. -/
theorem stays_flat (h : i.session.Orderly context) {e : DocumentEvent} (he : e.isFlat = true) :
    i.session.Stays context (i.step e).session := by
  have same : ∀ {s' : Session}, s' = i.session → i.session.Stays context s' := by
    rintro s' rfl
    exact h.stays
  cases e with
  | place location => exact h.stays_of_eq rfl rfl rfl rfl rfl rfl
  | characters text =>
    obtain ⟨frames, htext, -⟩ := i.exists_characters_eq text
    rw [step, htext]
    exact same rfl
  | startDocument => exact h.stays
  | warning message => exact h.reporting [.warning _ _]
  | error message => exact h.reporting [.error _ _]
  | fatal message => exact h.reporting [⟨⟨.fatal, _, _, _, none⟩, rfl⟩]
  | _ => cases he

/-- The second interpreter comes after the first: what is gone from the stack was activated. -/
structure Advances (context : Ref) (i i' : Interpreter) : Prop where
  orderly : i'.Orderly context
  leads : i.session.Leads context i'.session
  activated : ∀ r ∈ i.session.stack, i.session.graph.variety? r = some .lifecycle →
    r ∈ i'.session.stack ∨ i'.session.Activated r

theorem Advances.refl (h : i.Orderly context) : i.Advances context i :=
  ⟨h, h.session.leads, fun _ hr _ => .inl hr⟩

theorem Advances.trans (h : i.Advances context i') (h' : i'.Advances context i'') :
    i.Advances context i'' := by
  refine ⟨h'.orderly, h.leads.trans h'.leads, fun r hr hlife => ?_⟩
  rcases h.activated r hr hlife with hr | hr
  · exact h'.activated r hr (h.leads.variety?_eq hlife)
  · exact .inr (h'.leads.activated hr)

/-- Without a layer on or off, the stack is layered as before. -/
theorem advances_of_stays (h : i.Orderly context) (hs : i.session.Stays context i'.session)
    (hopen : i'.openActions = i.openActions) (hpath : i'.path = i.path)
    (hrules : i'.rules = i.rules) (himplicit : i'.implicit = i.implicit) :
    i.Advances context i' := by
  refine ⟨⟨hs.orderly, ?_, ?_, by rw [hrules]; exact h.rules, by rw [himplicit]; exact h.implicit⟩,
    hs.toLeads, fun r hr _ => .inl (by rw [hs.stack]; exact hr)⟩
  · have hlength := congrArg List.length hopen
    unfold openActions at hlength
    rw [List.length_map, List.length_map] at hlength
    unfold Aligned
    rw [hpath, hlength]
    exact h.aligned
  · rw [hopen, hs.stack]
    exact h.layered.mono hs.toLeads

theorem advances_flat (h : i.Orderly context) {e : DocumentEvent} (he : e.isFlat = true) :
    i.Advances context (i.step e) := by
  obtain ⟨hrules, himplicit, hpath, hopen, -⟩ := i.step_flat he
  exact advances_of_stays h (stays_flat h.session he) hopen hpath hrules himplicit

theorem advances_stray (h : i.Orderly context) (hf : i.openActions = []) (name : String) :
    i.Advances context (i.endElement name) ∧
      (i.endElement name).session.stack = i.session.stack ∧
      (i.endElement name).openActions = i.openActions := by
  have hframes : i.frames = [] := List.map_eq_nil_iff.1 hf
  unfold endElement
  rw [hframes]
  exact ⟨advances_of_stays h (h.session.reporting [.warning _ _]) rfl rfl rfl rfl, rfl, rfl⟩

/-- One callback. Only a start puts anything on the stack. -/
theorem step_advances (h : i.Orderly context) {e : DocumentEvent} (he : e.Plain) :
    i.Advances context (i.step e) ∧
      ((∀ name attributes, e ≠ .startElement name attributes) →
        (i.step e).session.stack <:+ i.session.stack) := by
  by_cases hflat : e.isFlat = true
  · obtain ⟨-, -, -, -, hstack⟩ := i.step_flat hflat
    exact ⟨advances_flat h hflat, fun _ => hstack ▸ List.suffix_refl _⟩
  cases e with
  | startElement name attributes =>
    obtain ⟨horderly, hleads, begun, -, hsits⟩ := startElement_orderly h he attributes
    refine ⟨⟨horderly, hleads, fun r hr _ => .inl ?_⟩, fun hnot => absurd rfl (hnot _ _)⟩
    show r ∈ (i.startElement name attributes).session.stack
    revert hsits
    generalize (i.startElement name attributes).session.stack = stack
    intro hsits
    cases hsits with
    | nothing => exact hr
    | one _ _ => exact List.mem_append_right _ hr
  | endElement name =>
    cases ho : i.openActions with
    | nil =>
      obtain ⟨hadvances, hstack, -⟩ := advances_stray h ho name
      exact ⟨hadvances, fun _ => hstack ▸ List.suffix_refl _⟩
    | cons begun outer =>
      obtain ⟨horderly, -, hreleases⟩ := endElement_orderly h ho name
      have hlayered := h.layered
      rw [ho] at hlayered
      generalize hst : i.session.stack = stack at hlayered
      cases hlayered with
      | @element _ _ below _ _ hsits _ =>
        have released := hreleases below (by rw [hst]; exact hsits)
        refine ⟨⟨horderly, released.toLeads, fun r hr hlife => ?_⟩, fun _ => ?_⟩
        · refine (released.activated r hr hlife).imp (fun hr => ?_) id
          rw [show (i.step (.endElement name)).session.stack = below from released.stack]
          exact hr
        · rw [show (i.step (.endElement name)).session.stack = below from released.stack]
          cases hsits with
          | nothing => exact List.suffix_refl _
          | one _ _ => exact List.suffix_append _ _
  | endDocument => cases he
  | _ => exact absurd rfl hflat

theorem run_advances (h : i.Orderly context) {es : List DocumentEvent} (hes : ∀ e ∈ es, e.Plain) :
    i.Advances context (i.run es) := by
  induction es generalizing i with
  | nil => exact .refl h
  | cons e es ih =>
    have first := (step_advances h (hes e List.mem_cons_self)).1
    rw [run_cons]
    exact first.trans (ih first.orderly fun e' he' => hes e' (List.mem_cons_of_mem _ he'))

/-- Nested callbacks leave the stack as it was. -/
theorem run_nested_stack {outermost : Bool} {es : List DocumentEvent} (hn : Nested outermost es)
    (h : i.Orderly context) (hes : ∀ e ∈ es, e.Plain) (ho : outermost = true → i.openActions = []) :
    (i.run es).session.stack = i.session.stack ∧ (i.run es).openActions = i.openActions := by
  induction hn generalizing i with
  | nil => exact ⟨rfl, rfl⟩
  | @flat outermost e rest he _ ih =>
    obtain ⟨-, -, -, hopen, hstack⟩ := i.step_flat he
    have hrest := (List.forall_mem_cons.1 hes).2
    obtain ⟨hstack', hopen'⟩ := ih (advances_flat h he).orderly hrest (by rwa [hopen])
    rw [run_cons]
    exact ⟨hstack'.trans hstack, hopen'.trans hopen⟩
  | @stray closing rest _ ih =>
    obtain ⟨hadvances, hstack, hopen⟩ := advances_stray h (ho rfl) closing
    have hrest := (List.forall_mem_cons.1 hes).2
    obtain ⟨hstack', hopen'⟩ := ih hadvances.orderly hrest (by rwa [hopen])
    rw [run_cons]
    exact ⟨hstack'.trans hstack, hopen'.trans hopen⟩
  | @element outermost name closing attributes inside rest _ _ ihInside ihRest =>
    -- the layer that the start adds is on top again when the inside is done, and the end takes it
    obtain ⟨hname, hothers⟩ := List.forall_mem_cons.1 hes
    obtain ⟨hplain, hrest⟩ := List.forall_mem_append.1 hothers
    obtain ⟨horderly, -, begun, hbegun, hsits⟩ := startElement_orderly h hname attributes
    have hinside := run_advances horderly hplain
    obtain ⟨hstack, hopen⟩ := ihInside horderly hplain (by simp)
    obtain ⟨horderly', hopen', hreleases⟩ :=
      endElement_orderly hinside.orderly (hopen.trans hbegun) closing
    have released := hreleases i.session.stack (by rw [hstack]; exact hsits.mono hinside.leads)
    obtain ⟨hstack', hopen''⟩ := ihRest horderly' (List.forall_mem_cons.1 hrest).2
      (by rwa [hopen'])
    rw [run_cons, run_append, run_cons]
    exact ⟨hstack'.trans released.stack, hopen''.trans hopen'⟩

end Interpreter
end LogConfig
