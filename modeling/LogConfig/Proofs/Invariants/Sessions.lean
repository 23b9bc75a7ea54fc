import LogConfig.Proofs.Effects.Atomic
import LogConfig.Proofs.Invariants.Loggers

/-
  Sessions over one logger context, one after the other. In every state that any of them goes
  through the loggers of the context are in order, and whatever a name stood for in one state it
  stands for in every later one, of the same session and of those after it.
-/

namespace LogConfig

variable {context : Ref}

namespace Graph

/-- Whichever way a context is asked for the logger of a name, it answers with this one and stays
as it is. -/
structure Resolves (g : Graph) (context : Ref) (name : String) (r : Ref) : Prop where
  found : g.findLogger? context name = some r
  got : ∀ c, g.context? context = some c → g.getLogger context c name = (g, r)
  adopted : ∀ c, g.context? context = some c → ∀ l, g.adoptLogger context c name l = (g, .error r)

variable {g g' : Graph}

theorem resolves_of_find? {c : LoggerContext} (hc : g.context? context = some c) {name : String}
    {r : Ref} (hr : c.find? name = some r) : g.Resolves context name r := by
  have only : ∀ c', g.context? context = some c' → c'.find? name = some r := by
    intro c' hc'
    rw [hc] at hc'
    cases hc'
    exact hr
  refine ⟨?_, fun c' hc' => ?_, fun c' hc' l => ?_⟩
  · rw [findLogger?, hc]
    exact hr
  · rw [getLogger, only c' hc']
  · rw [adoptLogger, only c' hc']

theorem Resolves.find? {name : String} {r : Ref} (h : g.Resolves context name r) :
    ∃ c, g.context? context = some c ∧ c.find? name = some r :=
  Option.bind_eq_some_iff.1 h.found

/-- A name goes on standing for the logger that it stands for. -/
theorem Resolves.kept {name : String} {r : Ref} (h : g.Resolves context name r)
    (hkept : g.LoggersKept context g') : g'.Resolves context name r := by
  obtain ⟨c, hc, hr⟩ := h.find?
  obtain ⟨c', hc', hextends⟩ := hkept c hc
  exact resolves_of_find? hc' (hextends.find? hr)

/-- A logger added under a new name is what the name stands for. -/
theorem addLogger_resolves {c : LoggerContext} (hc : g.context? context = some c) {name : String}
    (hnew : c.find? name = none) (l : Logger) :
    (g.addLogger context c name l).1.Resolves context name g.next := by
  refine resolves_of_find? (context?_addLogger hc name l) ?_
  unfold LoggerContext.find? at hnew ⊢
  split at hnew
  · cases hnew
  · next hroot => rw [if_neg hroot, Entries.find?_insert_self]

/-- Whatever a context answers when it is asked for a name, the name stands for from then on. -/
structure Answers (context : Ref) (g : Graph) : Prop where
  got : ∀ c, g.context? context = some c → ∀ name,
    (g.getLogger context c name).1.Resolves context name (g.getLogger context c name).2
  adopted : ∀ c, g.context? context = some c → ∀ name l r,
    (g.adoptLogger context c name l).2 = .ok r ∨ (g.adoptLogger context c name l).2 = .error r →
      (g.adoptLogger context c name l).1.Resolves context name r

theorem answers (context : Ref) (g : Graph) : g.Answers context := by
  constructor
  · intro c hc name
    unfold getLogger
    cases hr : c.find? name with
    | none => exact addLogger_resolves hc hr _
    | some r => exact resolves_of_find? hc hr
  · intro c hc name l r hanswer
    unfold adoptLogger at hanswer ⊢
    cases hr : c.find? name with
    | none =>
      rw [hr] at hanswer
      rcases hanswer with hanswer | hanswer
      · cases hanswer
        exact addLogger_resolves hc hr _
      · cases hanswer
    | some known =>
      rw [hr] at hanswer
      rcases hanswer with hanswer | hanswer
      · cases hanswer
      · cases hanswer
        exact resolves_of_find? hc hr

end Graph

/-! ### Changes of a session -/

namespace Graph

theorem Adjusted.loggersSound {g g' : Graph} {r : Ref} (hadjusted : g.Adjusted r g')
    (h : g.LoggersSound context) : g'.LoggersSound context ∧ g.LoggersKept context g' := by
  cases hadjusted with
  | kept => exact ⟨h, .refl context g⟩
  | @level l level hl hroot =>
    refine h.put (get?_of_logger? hl) (.logger rfl (fun hisRoot _ hnone => ?_) id)
    rw [hroot hnone] at hisRoot
    cases hisRoot
  | additive hl => exact h.put (get?_of_logger? hl) (.logger rfl (fun _ => id) id)

theorem Attached.loggersSound {g g' : Graph} {r child : Ref} (hattached : g.Attached r child g')
    (h : g.LoggersSound context) : g'.LoggersSound context ∧ g.LoggersKept context g' := by
  cases hattached with
  | slot hc _ _ _ _ hset => exact h.put hc (Component.steady_of_setComponent hset)
  | member hc _ _ _ _ hadd => exact h.put hc (Component.steady_of_addComponent hadd)

end Graph

namespace Session

variable {sets attaches : Prop} {s s' : Session}

theorem HasLogger.loggersSound {name : String} {graph : Graph} {r : Ref}
    (hlogger : s.HasLogger name graph r) (hclasses : s.classes = ClassRegistry.builtins)
    (h : s.graph.LoggersSound context) :
    graph.LoggersSound context ∧ s.graph.LoggersKept context graph := by
  cases hlogger with
  | known _ _ => exact ⟨h, .refl context _⟩
  | plain hcontext hnew =>
    exact h.addLogger (context?_eq_some hcontext).2 hnew rfl List.nodup_nil
  | @ofClass _ _ _ prototype hcontext hnew hprototype =>
    rw [hclasses] at hprototype
    have hnone : prototype.appenders = [] :=
      (ClassRegistry.instanceOfKind?_builtins hprototype).1
    refine h.addLogger (context?_eq_some hcontext).2 hnew rfl ?_
    show prototype.appenders.Nodup
    rw [hnone]
    exact List.nodup_nil

/-- A component of a built-in class is no context, and a logger without appenders if it is one. -/
theorem loggersSound_created {className : String} {kind : ComponentKind} {c : Component}
    (hc : s.classes.instanceOfKind? className kind = .ok c)
    (hclasses : s.classes = ClassRegistry.builtins) (h : s.graph.LoggersSound context) :
    (s.graph.add c).LoggersSound context ∧
      s.graph.LoggersKept context (s.graph.add c) := by
  rw [hclasses] at hc
  have hchildren := (ClassRegistry.instanceOfKind?_builtins hc).1
  obtain ⟨entry, hentry, rfl⟩ := ClassRegistry.mem_of_instanceOfKind? hc
  refine h.add ?_ fun l hl => ?_
  · intro hcontext
    rcases (ClassRegistry.builtins_prototypes entry hentry).2 with hlife | hkinds
    · rw [hcontext] at hlife
      cases hlife
    · generalize entry.2 = c at hcontext hkinds
      cases c with
      | context _ => cases hkinds
      | _ => cases hcontext
  · rw [hl] at hchildren
    rw [show l.appenders = [] from hchildren]
    exact List.nodup_nil

/-- The built-in classes, and a context whose loggers are in order. -/
structure LoggersSound (context : Ref) (s : Session) : Prop where
  classes : s.classes = ClassRegistry.builtins
  graph : s.graph.LoggersSound context

theorem AltersIf.loggersSound (halters : s.AltersIf sets attaches s') (h : s.LoggersSound context) :
    s'.LoggersSound context ∧ s.graph.LoggersKept context s'.graph := by
  obtain ⟨hclasses, hgraph⟩ := h
  -- only `aside` leaves the graph as it is and the classes open
  have onGraph : ∀ {graph : Graph},
      graph.LoggersSound context ∧ s.graph.LoggersKept context graph →
      ({ s with graph } : Session).LoggersSound context ∧
        s.graph.LoggersKept context graph := fun hg => ⟨⟨hclasses, hg.1⟩, hg.2⟩
  cases halters with
  | aside hg _ hc =>
    refine ⟨⟨hc.trans hclasses, by rw [hg]; exact hgraph⟩, ?_⟩
    rw [hg]
    exact .refl context _
  | created hc => exact onGraph (loggersSound_created hc hclasses hgraph)
  | kept _ _ _ _ => exact ⟨⟨hclasses, hgraph⟩, .refl context _⟩
  | set _ hc hset => exact onGraph (hgraph.put hc (Component.steady_of_setFromText hset))
  | adjusted hadjusted => exact onGraph (hadjusted.loggersSound hgraph)
  | declared hlogger => exact onGraph (hlogger.loggersSound hclasses hgraph)
  | revised hcontext hrevised =>
    exact onGraph (hgraph.revised (context?_eq_some hcontext).2 hrevised)
  | attached _ hattached => exact onGraph (hattached.loggersSound hgraph)
  | activated hc hactive => exact onGraph (hgraph.put hc (Component.steady_of_activate? hactive))

theorem BecomesIf.loggersSound (hbecomes : s.BecomesIf sets attaches s')
    (h : s.LoggersSound context) :
    s'.LoggersSound context ∧ s.graph.LoggersKept context s'.graph := by
  induction hbecomes with
  | refl => exact ⟨h, .refl context _⟩
  | tail _ hlast ih =>
    obtain ⟨hsound, hkept⟩ := ih
    obtain ⟨hsound', hkept'⟩ := hlast.loggersSound hsound
    exact ⟨hsound', hkept.trans hkept'⟩

/-! ### The name of the context -/

/-- Naming the context gives it the name that the text expands to. Once it was named, it is named
otherwise by no text, and the attempt changes nothing. -/
structure NamedOnce (context : Ref) (s : Session) : Prop where
  given : ∀ element text data s', Actions.nameContext element text data s = .ok () s' →
    ∃ name c, s.substitute text = .ok name ∧ s'.graph.context? context = some c ∧
      c.name = Text.trim name ∧ c.nameLocked = true
  refused : ∀ c, s.graph.context? context = some c → c.nameLocked = true →
    ∀ element text data name, s.substitute text = .ok name → Text.trim name ≠ c.name →
      ∃ e, Actions.nameContext element text data s = .error (.failed e) s

theorem namedOnce (h : s.graph.LoggersSound context) : s.NamedOnce context := by
  constructor
  · intro element text data s' hnamed
    obtain ⟨place, c, name, renamed, ds, hname, hcontext, hrename, rfl⟩ :=
      (Actions.nameContext_yields element s text data).of_ok hnamed
    have hplace := (context?_eq_some hcontext).2
    obtain rfl := h.only place c hplace
    obtain ⟨hgiven, hlocked, -⟩ := LoggerContext.rename_eq_ok hrename
    refine ⟨name, renamed, hname, ?_, hgiven, hlocked⟩
    exact Graph.context?_eq_some_iff.2 (Graph.get?_put_self (Graph.get?_of_context? hplace) _)
  · intro c hc hlocked element text data name hname hother
    have hyields := Actions.nameContext_yields element s text data
    cases hnamed : Actions.nameContext element text data s with
    | ok _ s' =>
      obtain ⟨place, c', name', renamed, ds, hname', hcontext, hrename, -⟩ := hyields.of_ok hnamed
      have hplace := (context?_eq_some hcontext).2
      obtain rfl := h.only place c' hplace
      rw [hc] at hplace
      rw [hname] at hname'
      cases hplace
      cases hname'
      obtain ⟨reason, hrefused⟩ := LoggerContext.rename_locked hlocked hother
      rw [hrefused] at hrename
      cases hrename
    | error signal s' =>
      obtain ⟨e, rfl, rfl⟩ := hyields.of_error hnamed
      exact ⟨e, rfl⟩

end Session

/-! ### Sessions in order -/

/-- What a session is run with, beside the context that it configures. -/
structure Job where
  options : SessionOptions := {}
  environment : Environment := {}
  source : String

namespace Configurator

/-- The configurator of a job, with the built-in classes and actions. -/
def ofJob (context : Ref) (job : Job) : Configurator :=
  { context, options := job.options, environment := job.environment }

/-- Every state that sessions over one context go through, in order. Each session starts with the
graph that the one before it left. -/
def history (context : Ref) (g : Graph) : List Job → List Session
  | [] => []
  | job :: jobs =>
    (ofJob context job).course g job.source ++
      history context ((ofJob context job).configure g job.source).1 jobs

variable {context : Ref}

theorem loggersSound_session (job : Job) {g : Graph} (h : g.LoggersSound context) :
    ((ofJob context job).session g).LoggersSound context ∧
      ((ofJob context job).session g).graph = g := by
  obtain ⟨properties, hsession⟩ := session_eq (ofJob context job) g
  rw [hsession]
  exact ⟨⟨rfl, h⟩, rfl⟩

theorem history_loggersSound {g : Graph} (h : g.LoggersSound context) (jobs : List Job) :
    (∀ s ∈ history context g jobs, s.graph.LoggersSound context ∧
      g.LoggersKept context s.graph) ∧
    (history context g jobs).Pairwise fun s s' => s.graph.LoggersKept context s'.graph := by
  induction jobs generalizing g with
  | nil => exact ⟨nofun, .nil⟩
  | cons job jobs ih =>
    obtain ⟨hstart, hgraph⟩ := loggersSound_session job h
    obtain ⟨hpairs, hbounds⟩ :=
      course_becomes (ofJob context job) rfl g job.source
    have within : ∀ s ∈ (ofJob context job).course g job.source, s.LoggersSound context ∧
        g.LoggersKept context s.graph := by
      intro s hs
      obtain ⟨hsound, hkept⟩ := (hbounds s hs).1.loggersSound hstart
      rw [hgraph] at hkept
      exact ⟨hsound, hkept⟩
    have toEnd : ∀ s ∈ (ofJob context job).course g job.source,
        s.graph.LoggersKept context ((ofJob context job).configure g job.source).1 :=
      fun s hs => ((hbounds s hs).2.loggersSound (within s hs).1).2
    have hend : (ofJob context job).run g job.source ∈ (ofJob context job).course g job.source :=
      List.mem_append_right _ List.mem_cons_self
    obtain ⟨hlater, hlaterPairs⟩ := ih (within _ hend).1.graph
    rw [history]
    refine ⟨fun s hs => ?_, List.pairwise_append.2 ⟨?_, hlaterPairs, fun s hs t ht => ?_⟩⟩
    · rcases List.mem_append.1 hs with hs | hs
      · exact ⟨(within s hs).1.graph, (within s hs).2⟩
      · exact ⟨(hlater s hs).1, (within _ hend).2.trans (hlater s hs).2⟩
    · exact hpairs.imp_of_mem fun hs _ hbecomes => (hbecomes.loggersSound (within _ hs).1).2
    · exact (toEnd s hs).trans (hlater t ht).2

end Configurator

theorem Graph.loggersSound_addContext (name : String) :
    (addContext {} name).1.LoggersSound (addContext {} name).2 := by
  let withRoot := ({} : Graph).add (.logger LoggerContext.newRoot)
  refine ⟨⟨{ name, root := ({} : Graph).next }, ?_, ?_⟩, fun r c hc => ?_, fun r l hl => ?_⟩
  · exact context?_eq_some_iff.2 (withRoot.get?_add_next _)
  · refine ⟨⟨LoggerContext.newRoot, ?_, by decide, by decide⟩, nofun, nofun, List.nodup_nil⟩
    exact logger?_eq_some_iff.2 (get?_add_of_some (get?_add_next _ _) _)
  · rcases cells_addContext name (get?_of_context? hc) with ⟨hr, -⟩ | hroot
    · exact hr
    · cases hroot
  · rcases cells_addContext name (get?_of_logger? hl) with ⟨-, hcontext⟩ | hroot
    · cases hcontext
    · cases hroot
      exact List.nodup_nil

namespace Configurator

/-- The loggers of a context stay in order. Take any sessions over a new context, one after the
other, whatever they are given. In every state that one of them goes through, the root logger has
a level, every other logger is stored once, under its own name and not under one of the root's, and
no logger has an appender twice. Whichever logger is given for a name, the name stands for it in
every later state, and no logger is taken away or moved. A name that was given to the context stays
its name, and an attempt to give it another one changes nothing. -/
theorem history_keeps_loggers (name : String) (jobs : List Job) :
    let context := (Graph.addContext {} name).2
    let states := history context (Graph.addContext {} name).1 jobs
    (∀ s ∈ states, s.graph.LoggersSound context ∧ s.graph.Answers context ∧
      s.NamedOnce context) ∧
    states.Pairwise fun s s' => s.graph.LoggersKept context s'.graph ∧
      ∀ title r, s.graph.Resolves context title r → s'.graph.Resolves context title r := by
  intro context states
  obtain ⟨hsound, hpairs⟩ := history_loggersSound (Graph.loggersSound_addContext name) jobs
  refine ⟨fun s hs => ?_, hpairs.imp fun hkept => ⟨hkept, fun _ _ hr => hr.kept hkept⟩⟩
  exact ⟨(hsound s hs).1, s.graph.answers context, s.namedOnce (hsound s hs).1⟩

end Configurator
end LogConfig
