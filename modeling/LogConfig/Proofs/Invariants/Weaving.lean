import LogConfig.Proofs.Invariants.Children

/-
  Sessions whose components hold no cycle. What a session made and took from the stack again holds
  only components that were made and taken from the stack, too (`Session.Woven`). So it does not
  lead to anything on the stack, and may be attached to what is there without closing a cycle
  (`Session.Woven.step`).
-/

namespace LogConfig

/-- New links from outside into a part that no link leaves close no cycle. -/
theorem acyclic_of_closed {α : Type} {R R' : α → α → Prop} {closed : α → Prop}
    (hacyclic : ∀ a, ¬ Relation.TransGen R a a) (hclosed : ∀ a b, closed a → R a b → closed b)
    (hnew : ∀ a b, R' a b → R a b ∨ (¬ closed a ∧ closed b)) (a : α) :
    ¬ Relation.TransGen R' a a := by
  have stays : ∀ {a b}, Relation.TransGen R a b → closed a → closed b := by
    intro a b h ha
    induction h with
    | single hab => exact hclosed _ _ ha hab
    | tail _ hbc ih => exact hclosed _ _ ih hbc
  have leads : ∀ {a b}, Relation.TransGen R' a b →
      Relation.TransGen R a b ∨ (¬ closed a ∧ closed b) := by
    intro a b h
    induction h with
    | single hab => exact (hnew _ _ hab).imp_left .single
    | tail _ hbc ih =>
      rcases ih, hnew _ _ hbc with ⟨hab | ⟨ha, hb⟩, hbc | ⟨hb', hc⟩⟩
      · exact .inl (hab.tail hbc)
      · exact .inr ⟨fun ha => hb' (stays hab ha), hc⟩
      · exact .inr ⟨ha, hclosed _ _ hb hbc⟩
      · exact absurd hb hb'
  intro h
  rcases leads h with h | ⟨hout, hin⟩
  · exact hacyclic a h
  · exact hout hin

/-! ### What a session makes -/

namespace Graph

/-- No component leads back to itself through what components hold. -/
def Acyclic (g : Graph) : Prop := ∀ r, ¬ Relation.TransGen (fun u v => v ∈ g.childrenOf u) r r

/-- The first component holds the second, and this is not to be left out. -/
def Link (loose : Ref → Ref → Prop) (g : Graph) (u v : Ref) : Prop :=
  v ∈ g.childrenOf u ∧ ¬ loose u v

/-- The component was made after the graph `g₀`, and is no logger of the context. -/
structure Made (context : Ref) (g g₀ : Graph) (r : Ref) : Prop where
  fresh : g₀.variety? r = none
  used : g.variety? r ≠ none
  plain : ¬ g.IsLoggerOf context r

variable {context : Ref} {g₀ g g' : Graph} {links : List (Ref × Ref)} {u v r : Ref}

theorem Grows.made (h : g.Grows context links g') (hr : g.variety? r ≠ none) :
    g'.Made context g₀ r ↔ g.Made context g₀ r :=
  ⟨fun ⟨hfresh, _, hplain⟩ => ⟨hfresh, hr, fun hlogger => hplain ((h.loggers r hr).2 hlogger)⟩,
    fun ⟨hfresh, _, hplain⟩ => ⟨hfresh, h.used r hr, fun hlogger =>
      hplain ((h.loggers r hr).1 hlogger)⟩⟩

theorem used_of_child (h : v ∈ g.childrenOf u) : g.variety? u ≠ none := by
  intro hnone
  unfold variety? at hnone
  rw [childrenOf, Option.map_eq_none_iff.1 hnone] at h
  cases h

/-- A component that is added is made. -/
theorem Lodges.made_add (h : g.Lodges context) (hsince : ∀ r, g₀.variety? r ≠ none →
    g.variety? r ≠ none) (c : Component) : (g.add c).Made context g₀ g.next := by
  refine ⟨Decidable.by_contra fun hold => hsince _ hold g.variety?_next, ?_, fun hlogger => ?_⟩
  · rw [variety?_add_next]
    nofun
  · have hused := h.variety?_logger ((isLoggerOf_of_context? (h.context?_add c) _).1 hlogger)
    rw [variety?_next] at hused
    cases hused

end Graph

namespace Session

open LogConfig.Graph

variable {context : Ref} {g₀ : Graph} {loose : Ref → Ref → Prop} {s s' s'' : Session}

/-- A session over the graph `g₀`. What was made lies on the stack once at most, the appenders kept
by name were made, and what a component holds that was made was made and is not on the stack any
more. -/
structure Woven (context : Ref) (g₀ : Graph) (loose : Ref → Ref → Prop) (s : Session) : Prop where
  grounded : s.Grounded context
  classes : s.classes.Stores
  stores : s.graph.Stores
  since : ∀ r, g₀.variety? r ≠ none → s.graph.variety? r ≠ none
  used : ∀ r ∈ s.stack, s.graph.variety? r ≠ none
  once : s.stack.Pairwise fun r r' => r = r' → ¬ s.graph.Made context g₀ r
  bag : ∀ entry ∈ s.appenderBag, s.graph.Made context g₀ entry.2
  closed : ∀ u v, s.graph.Made context g₀ u → s.graph.Link loose u v →
    s.graph.Made context g₀ v ∧ v ∉ s.stack
  acyclic : ∀ r, ¬ Relation.TransGen (s.graph.Link loose) r r

/-- What a phase makes of the stack: it takes objects from it, or puts one there that was not made
before. -/
inductive Restacks (context : Ref) (g₀ : Graph) (s s' : Session) : Prop where
  | lower : s'.stack <:+ s.stack → Restacks context g₀ s s'
  | push {r : Ref} : s'.stack = r :: s.stack → ¬ s.graph.Made context g₀ r →
    s'.graph.variety? r ≠ none → Restacks context g₀ s s'

/-- What was made stays made. Once it is off the stack it stays off, and while it is on the stack it
lies on what it was put on. -/
structure Moves (context : Ref) (g₀ : Graph) (s s' : Session) : Prop where
  made : ∀ r, s.graph.Made context g₀ r → s'.graph.Made context g₀ r
  off : ∀ r, s.graph.Made context g₀ r → r ∉ s.stack → r ∉ s'.stack
  above : ∀ r below, s.graph.Made context g₀ r → r :: below <:+ s.stack →
    r ∉ s'.stack ∨ r :: below <:+ s'.stack

/-- The session becomes one that is woven, too. -/
structure Weaves (context : Ref) (g₀ : Graph) (loose : Ref → Ref → Prop) (s s' : Session) :
    Prop where
  woven : s'.Woven context g₀ loose
  moves : s.Moves context g₀ s'

theorem Moves.refl (s : Session) : s.Moves context g₀ s :=
  ⟨fun _ h => h, fun _ _ h => h, fun _ _ _ h => .inr h⟩

theorem Moves.trans (h : s.Moves context g₀ s') (h' : s'.Moves context g₀ s'') :
    s.Moves context g₀ s'' := by
  refine ⟨fun r hr => h'.made r (h.made r hr), fun r hr hoff => h'.off r (h.made r hr)
    (h.off r hr hoff), fun r below hr hbelow => ?_⟩
  rcases h.above r below hr hbelow with hoff | hbelow
  · exact .inl (h'.off r (h.made r hr) hoff)
  · exact h'.above r below (h.made r hr) hbelow

theorem Weaves.trans (h : s.Weaves context g₀ loose s') (h' : s'.Weaves context g₀ loose s'') :
    s.Weaves context g₀ loose s'' := ⟨h'.woven, h.moves.trans h'.moves⟩

theorem not_mem_of_once (h : s.Woven context g₀ loose) {r : Ref} (hr : s.graph.Made context g₀ r)
    {below : List Ref} (hbelow : r :: below <:+ s.stack) : r ∉ below := by
  have honce := h.once.sublist hbelow.sublist
  exact fun hmem => (List.pairwise_cons.1 honce).1 r hmem rfl hr

theorem Restacks.mem (h : s.Restacks context g₀ s') {r : Ref} (hr : s.graph.Made context g₀ r)
    (hmem : r ∈ s'.stack) : r ∈ s.stack := by
  cases h with
  | lower hstack => exact hstack.mem hmem
  | push hstack hnot _ =>
    rw [hstack] at hmem
    refine (List.mem_cons.1 hmem).resolve_left ?_
    rintro rfl
    exact hnot hr

theorem Restacks.moves (h : s.Restacks context g₀ s') (hs : s.Woven context g₀ loose)
    (hmade : ∀ r, s.graph.Made context g₀ r → s'.graph.Made context g₀ r) :
    s.Moves context g₀ s' := by
  refine ⟨hmade, fun r hr hoff hmem => hoff (h.mem hr hmem), fun r below hr hbelow => ?_⟩
  cases h with
  | lower hstack =>
    rcases List.suffix_or_suffix_of_suffix hbelow hstack with hsuffix | hsuffix
    · exact .inr hsuffix
    · rcases List.suffix_cons_iff.1 hsuffix with he | hsuffix
      · exact .inr ⟨[], he.symm⟩
      · exact .inl fun hmem => not_mem_of_once hs hr hbelow (hsuffix.mem hmem)
  | push hstack _ _ =>
    rw [hstack]
    exact .inr (hbelow.trans (List.suffix_cons _ _))

/-- A session stays woven if its graph grows by links from what is on the stack to what was made and
is not. -/
theorem Woven.step (h : s.Woven context g₀ loose) {links : List (Ref × Ref)}
    (hgrounded : s'.Grounded context) (hgrows : s.graph.Grows context links s'.graph)
    (hclasses : s'.classes = s.classes) (hstack : s.Restacks context g₀ s')
    (hbag : ∀ entry ∈ s'.appenderBag, entry ∈ s.appenderBag ∨ s'.graph.Made context g₀ entry.2)
    (hlinks : ∀ u v, (u, v) ∈ links → loose u v ∨
      (u ∈ s.stack ∧ s.graph.Made context g₀ v ∧ v ∉ s.stack)) :
    s.Weaves context g₀ loose s' := by
  have hmade : ∀ r, s.graph.Made context g₀ r → s'.graph.Made context g₀ r :=
    fun r hr => (hgrows.made hr.used).2 hr
  have unmade : ∀ r ∈ s.stack, ¬ s.graph.Made context g₀ r → ¬ s'.graph.Made context g₀ r :=
    fun r hr hnot hr' => hnot ((hgrows.made (h.used r hr)).1 hr')
  have hlink : ∀ u v, s'.graph.Link loose u v → s.graph.Link loose u v ∨
      (u ∈ s.stack ∧ s.graph.Made context g₀ v ∧ v ∉ s.stack) := by
    rintro u v ⟨hchild, htight⟩
    rcases hgrows.children u v hchild with hchild | hadded
    · exact .inl ⟨hchild, htight⟩
    · exact .inr ((hlinks u v hadded).resolve_left htight)
  refine ⟨⟨hgrounded, by rw [hclasses]; exact h.classes, hgrows.stores,
    fun r hr => hgrows.used r (h.since r hr), ?_, ?_, fun entry hentry => ?_, ?_, ?_⟩,
    hstack.moves h hmade⟩
  · intro r hr
    cases hstack with
    | lower hstack => exact hgrows.used r (h.used r (hstack.mem hr))
    | push hstack _ hused =>
      rw [hstack] at hr
      rcases List.mem_cons.1 hr with rfl | hr
      · exact hused
      · exact hgrows.used r (h.used r hr)
  · have honce : s.stack.Pairwise fun r r' => r = r' → ¬ s'.graph.Made context g₀ r :=
      h.once.imp_of_mem fun hr _ hnot he => unmade _ hr (hnot he)
    cases hstack with
    | lower hstack => exact honce.sublist hstack.sublist
    | push hstack hnot _ =>
      rw [hstack]
      refine List.pairwise_cons.2 ⟨?_, honce⟩
      rintro r' hr' rfl
      exact unmade _ hr' hnot
  · exact (hbag entry hentry).elim (fun hkept => hmade _ (h.bag entry hkept)) id
  · intro u v hu huv
    obtain ⟨hv, hoff⟩ : s.graph.Made context g₀ v ∧ v ∉ s.stack := by
      rcases hlink u v huv with huv | ⟨-, hv⟩
      · exact h.closed u v ((hgrows.made (used_of_child huv.1)).1 hu) huv
      · exact hv
    exact ⟨hmade v hv, fun hmem => hoff (hstack.mem hv hmem)⟩
  · have hclosed : ∀ u v, (s.graph.Made context g₀ u ∧ u ∉ s.stack) → s.graph.Link loose u v →
        s.graph.Made context g₀ v ∧ v ∉ s.stack := fun u v hu huv => h.closed u v hu.1 huv
    refine acyclic_of_closed h.acyclic hclosed fun u v huv => (hlink u v huv).imp_right ?_
    exact fun ⟨hu, hv⟩ => ⟨fun hoff => hoff.2 hu, hv⟩

/-! ### Changes -/

theorem Woven.weaves (h : s.Woven context g₀ loose) : s.Weaves context g₀ loose s := ⟨h, .refl s⟩

/-- A change that neither sets properties nor attaches children. -/
theorem Woven.calm (h : s.Woven context g₀ loose) (hbecomes : s.BecomesIf False False s')
    (hstack : s.Restacks context g₀ s') : s.Weaves context g₀ loose s' := by
  obtain ⟨hgrows, hbag, hclasses⟩ := hbecomes.grows h.grounded h.classes h.stores
  refine h.step (hbecomes.grounded h.grounded).1 hgrows hclasses hstack
    (fun entry hentry => .inl ?_) nofun
  rwa [hbag] at hentry

theorem Woven.setFromText (h : s.Woven context g₀ loose) {r : Ref} {c c' : Component}
    {name text : String} (hc : s.graph.get? r = some c) (hset : c.setFromText name text = .ok c') :
    s.Weaves context g₀ loose { s with graph := s.graph.put r c' } := by
  obtain ⟨hstores, hchanged⟩ := (h.stores r c hc).setFromText hset
  have hbecomes : s.Becomes { s with graph := s.graph.put r c' } := .single (.set trivial hc hset)
  exact h.step (hbecomes.grounded h.grounded).1
    (h.grounded.lodges.grows_put h.stores hc hstores hchanged) rfl
    (.lower (List.suffix_refl _)) (fun _ hentry => .inl hentry) nofun

/-- A component that was made is kept as an appender. -/
theorem Woven.keepAppender (h : s.Woven context g₀ loose) (name : String) {r : Ref} {c : Component}
    (hr : s.graph.Made context g₀ r) (hc : s.graph.get? r = some c)
    (hkind : c.isKind .appender = true) : s.Weaves context g₀ loose (s.keepAppender name r) := by
  have hbecomes : s.Becomes (s.keepAppender name r) := .single (.kept name trivial hc hkind)
  refine h.step (hbecomes.grounded h.grounded).1 (.refl h.stores) rfl
    (.lower (List.suffix_refl _)) (fun entry hentry => ?_) nofun
  rw [appenderBag_keepAppender] at hentry
  rcases Entries.mem_insert hentry with rfl | hentry
  · exact .inr hr
  · exact .inl hentry

/-- A component that is not on the stack is attached to one that is. -/
theorem Woven.attach (h : s.Woven context g₀ loose) {parent child : Ref} {graph : Graph}
    (hattached : s.graph.Attached parent child graph)
    (hlink : loose parent child ∨
      (parent ∈ s.stack ∧ s.graph.Made context g₀ child ∧ child ∉ s.stack)) :
    s.Weaves context g₀ loose { s with graph } := by
  have hbecomes : s.Becomes { s with graph } := .single (.attached trivial hattached)
  obtain ⟨c, c', hc, hstores, hchanged, rfl⟩ := hattached.stored h.stores
  refine h.step (hbecomes.grounded h.grounded).1
    (h.grounded.lodges.grows_put h.stores hc hstores hchanged) rfl
    (.lower (List.suffix_refl _)) (fun _ hentry => .inl hentry) fun u v huv => ?_
  obtain ⟨rfl, rfl⟩ : u = parent ∧ v = child := by simpa using huv
  exact hlink

theorem Woven.made_next (h : s.Woven context g₀ loose) (c : Component) :
    (s.graph.add c).Made context g₀ s.graph.next := h.grounded.lodges.made_add h.since c

/-- A new component is put on the stack. -/
theorem Woven.create (h : s.Woven context g₀ loose) {className : String} {kind : ComponentKind}
    {c : Component} (hc : s.classes.instanceOfKind? className kind = .ok c)
    (hgraph : s'.graph = s.graph.add c) (hstack : s'.stack = s.graph.next :: s.stack)
    (hbag : s'.appenderBag = s.appenderBag) (hclasses : s'.classes = s.classes) :
    s.Weaves context g₀ loose s' := by
  have hbecomes : s.BecomesIf False False s' :=
    BecomesIf.aside (.single (.created hc)) hgraph hbag hclasses
  refine h.calm hbecomes (.push hstack (fun hmade => hmade.used s.graph.variety?_next) ?_)
  rw [hgraph]
  exact (h.made_next c).used

/-! ### What actions keep -/

/-- Where what an action keeps is to be attached later: a layout was made; a nested component was
made, too, and lies on its parent while it is on the stack. -/
def Places (context : Ref) (g₀ : Graph) (s : Session) (a : Action) : Option ActionData → Prop
  | some (.component r) => a.name = Actions.layout.name → s.graph.Made context g₀ r
  | some (.nested parent _ child) => s.graph.Made context g₀ child ∧
    (child ∉ s.stack ∨ ∃ below, child :: parent :: below <:+ s.stack)
  | _ => True

theorem Places.moves {a : Action} {data : Option ActionData} (h : s.Places context g₀ a data)
    (hmoves : s.Moves context g₀ s') : s'.Places context g₀ a data := by
  rcases data with _ | r | ⟨parent, aggregation, child⟩ | r | text
  · trivial
  · exact fun ha => hmoves.made r (h ha)
  · obtain ⟨hchild, hplace⟩ := h
    refine ⟨hmoves.made child hchild, ?_⟩
    rcases hplace with hoff | ⟨below, hbelow⟩
    · exact .inl (hmoves.off child hchild hoff)
    · exact (hmoves.above child _ hchild hbelow).imp_right fun hbelow => ⟨below, hbelow⟩
  · trivial
  · trivial

end Session
end LogConfig
