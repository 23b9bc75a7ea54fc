import LogConfig.Proofs.Dispatch.History
import LogConfig.Proofs.Document.Reading
import LogConfig.Proofs.Stack.Balance

/-
  The text of an element. Its character data arrives in pieces, between which there are comments,
  instructions and whole elements with text of their own. Every frame collects what arrives while
  it is the innermost one (`run_frames`), so at its end an element has what lies directly inside it
  in the document (`Document.textInside_eventsFrom`), and its actions are given that, trimmed
  (`body_text`). Skips are left out: where one is on, text is dropped.
-/

namespace LogConfig

/-! ### Character data of the markup -/

namespace Document

/-- The character data of a piece of markup: a text with its references resolved, or nothing where
they cannot be, and a CDATA section as it stands. -/
def Markup.data : Markup → List Char
  | .text raw =>
    match unescape raw with
    | .ok resolved => resolved
    | .error _ => []
  | .cdata content => content
  | _ => []

/-- The character data directly inside an element, from the markup after its start tag: what lies
in no inner element, up to its end tag or to the end of the document. The depth is the number of
inner elements that are open. -/
def dataInside : Nat → List Markup → List Char
  | _, [] => []
  | depth, piece :: rest =>
    match piece, depth with
    | .openTag _ _ closed, _ => dataInside (if closed then depth else depth + 1) rest
    | .closeTag _, 0 => []
    | .closeTag _, depth + 1 => dataInside depth rest
    | piece, 0 => piece.data ++ dataInside 0 rest
    | _, depth + 1 => dataInside (depth + 1) rest

end Document

/-! ### Character data of callbacks -/

/-- The character data of an event. -/
def DocumentEvent.data : DocumentEvent → List Char
  | .characters text => text.toList
  | _ => []

/-- The character data directly inside an element, from the callbacks after its start. -/
def textInside : Nat → List DocumentEvent → List Char
  | _, [] => []
  | depth, e :: rest =>
    match e, depth with
    | .startElement _ _, _ => textInside (depth + 1) rest
    | .endElement _, 0 => []
    | .endElement _, depth + 1 => textInside depth rest
    | e, 0 => e.data ++ textInside 0 rest
    | _, depth + 1 => textInside (depth + 1) rest

variable {inside rest : List DocumentEvent}

/-- Events that are no tags contribute what they hold, but not inside an inner element. -/
theorem textInside_flat {es : List DocumentEvent} (h : ∀ e ∈ es, e.isFlat = true) (depth : Nat)
    (rest : List DocumentEvent) :
    textInside depth (es ++ rest) =
      (if depth = 0 then es.flatMap DocumentEvent.data else []) ++ textInside depth rest := by
  induction es with
  | nil =>
    split
    · rfl
    · rfl
  | cons e es ih =>
    obtain ⟨he, hes⟩ := List.forall_mem_cons.1 h
    have first : ∀ tail, textInside depth (e :: tail) =
        (if depth = 0 then e.data else []) ++ textInside depth tail := by
      intro tail
      cases e with
      | startElement name attributes => cases he
      | endElement name => cases he
      | _ =>
        cases depth with
        | zero => rfl
        | succ depth => rfl
    rw [List.cons_append, first, ih hes, ← List.append_assoc]
    split
    · rfl
    · rfl

/-- Nested callbacks inside an inner element contribute nothing. -/
theorem textInside_nested_deep (hn : Nested false inside) (depth : Nat)
    (rest : List DocumentEvent) :
    textInside (depth + 1) (inside ++ rest) = textInside (depth + 1) rest := by
  generalize ho : false = outermost at hn
  induction hn generalizing depth rest with
  | nil => rfl
  | @flat _ e after he _ ih =>
    exact (textInside_flat (List.forall_mem_singleton.2 he) (depth + 1) (after ++ rest)).trans
      (ih depth rest ho)
  | stray _ _ => cases ho
  | @element _ _ closing _ inside after _ _ ihInside ihAfter =>
    rw [List.cons_append, List.append_assoc]
    exact (ihInside (depth + 1) (.endElement closing :: after ++ rest) rfl).trans
      (ihAfter depth rest ho)

/-- An inner element contributes nothing. -/
theorem textInside_element (hn : Nested false inside) (name : String) (attributes : Attributes)
    (closing : String) (rest : List DocumentEvent) :
    textInside 0 (.startElement name attributes :: (inside ++ .endElement closing :: rest)) =
      textInside 0 rest :=
  textInside_nested_deep hn 0 (.endElement closing :: rest)

theorem textInside_nested (hn : Nested false inside) (rest : List DocumentEvent) :
    textInside 0 (inside ++ rest) = textInside 0 inside ++ textInside 0 rest := by
  generalize ho : false = outermost at hn
  induction hn with
  | nil => rfl
  | @flat _ e after he _ ih =>
    have first := textInside_flat (List.forall_mem_singleton.2 he) 0
    rw [List.cons_append, ← List.singleton_append, first, ih ho, ← List.append_assoc]
    exact congrArg (· ++ _) (first after).symm
  | stray _ _ => cases ho
  | @element _ name closing attributes inside after hinside _ _ ihAfter =>
    rw [List.cons_append, List.append_assoc, List.cons_append,
      textInside_element hinside, textInside_element hinside, ihAfter ho]

/-- Ends that are forced hold no text. -/
theorem textInside_ends {ends : List DocumentEvent}
    (h : ∀ e ∈ ends, (∃ message, e = .warning message) ∨ ∃ tag, e = .endElement tag)
    (depth : Nat) : textInside depth ends = [] := by
  induction ends generalizing depth with
  | nil => rfl
  | cons e ends ih =>
    obtain ⟨he, hends⟩ := List.forall_mem_cons.1 h
    rcases he with ⟨message, rfl⟩ | ⟨tag, rfl⟩
    · cases depth with
      | zero => exact ih hends 0
      | succ depth => exact ih hends (depth + 1)
    · cases depth with
      | zero => rfl
      | succ depth => exact ih hends depth

/-! ### From markup to callbacks -/

namespace Document

theorem attributeFaults_error (attributes : List (Except String (String × String))) :
    ∀ e ∈ attributeFaults attributes, ∃ message, e = .error message := by
  intro e he
  obtain ⟨entry, -, he⟩ := List.mem_filterMap.1 he
  cases entry with
  | error message => exact ⟨message, (Option.some.inj he).symm⟩
  | ok entry => cases he

theorem attributeFaults_flat (attributes : List (Except String (String × String))) :
    (∀ e ∈ attributeFaults attributes, e.isFlat = true) ∧
      (attributeFaults attributes).flatMap DocumentEvent.data = [] := by
  refine ⟨fun e he => ?_, List.flatMap_eq_nil_iff.2 fun e he => ?_⟩
  · obtain ⟨message, rfl⟩ := attributeFaults_error attributes e he
    rfl
  · obtain ⟨message, rfl⟩ := attributeFaults_error attributes e he
    rfl

/-- Whether markup is a tag of an element. -/
def Markup.isTag : Markup → Bool
  | .openTag .. | .closeTag _ => true
  | _ => false

theorem dataInside_of_not_isTag {piece : Markup} (h : piece.isTag = false) (depth : Nat)
    (rest : List Markup) : dataInside depth (piece :: rest) =
      (if depth = 0 then piece.data else []) ++ dataInside depth rest := by
  cases piece with
  | openTag content nameLength closed => cases h
  | closeTag name => cases h
  | _ =>
    cases depth with
    | zero => rfl
    | succ depth => rfl

/-- Markup other than tags is told by events that hold its character data. -/
theorem data_eventsOfMarkup {piece : Markup} (h : piece.isTag = false) :
    (∀ e ∈ eventsOfMarkup piece, e.isFlat = true) ∧
      (eventsOfMarkup piece).flatMap DocumentEvent.data = piece.data := by
  have told : ∀ cs : List Char, [DocumentEvent.characters (String.ofList cs)].flatMap
      DocumentEvent.data = cs := fun cs => by simp [DocumentEvent.data]
  cases piece with
  | openTag content nameLength closed => cases h
  | closeTag name => cases h
  | text raw =>
    unfold eventsOfMarkup Markup.data
    dsimp only
    cases unescape raw with
    | ok resolved => exact ⟨List.forall_mem_singleton.2 rfl, told resolved⟩
    | error problem => exact ⟨List.forall_mem_singleton.2 rfl, rfl⟩
  | cdata content => exact ⟨List.forall_mem_singleton.2 rfl, told content⟩
  | aside => exact ⟨fun e he => absurd he List.not_mem_nil, rfl⟩
  | endOfInput => exact ⟨fun e he => absurd he List.not_mem_nil, rfl⟩
  | fault message => exact ⟨List.forall_mem_singleton.2 rfl, rfl⟩

/-- One piece of markup. -/
theorem textInside_eventsOfMarkup (piece : Markup) (pieces : List Markup) (depth : Nat)
    {later : List DocumentEvent} (h : ∀ depth, textInside depth later = dataInside depth pieces) :
    textInside depth (eventsOfMarkup piece ++ later) = dataInside depth (piece :: pieces) := by
  cases htag : piece.isTag with
  | false =>
    obtain ⟨hflat, hdata⟩ := data_eventsOfMarkup htag
    rw [textInside_flat hflat, dataInside_of_not_isTag htag, hdata, h]
  | true =>
    cases piece with
    | openTag content nameLength closed =>
      obtain ⟨hflat, hdata⟩ :=
        attributeFaults_flat ((attributesOf content nameLength).map attributeEntry)
      unfold eventsOfMarkup
      dsimp only
      rw [List.append_assoc, textInside_flat hflat, hdata, ite_self, List.nil_append]
      cases closed with
      | true => exact h depth
      | false => exact h (depth + 1)
    | closeTag name =>
      cases depth with
      | zero => rfl
      | succ depth => exact h depth
    | _ => cases htag

/-- The character data that is told is that of the markup. -/
theorem textInside_eventsFrom (source : List Char) (tracker : Tracker)
    (pieces : List (Markup × Nat)) (depth : Nat) {ends : List DocumentEvent}
    (hends : ∀ depth, textInside depth ends = []) :
    textInside depth (eventsFrom source tracker pieces ++ ends) =
      dataInside depth (pieces.map Prod.fst) := by
  induction pieces generalizing tracker depth with
  | nil => exact hends depth
  | cons piece rest ih =>
    let reached := tracker.advance source (placeOffset source piece)
    have placed : ∀ tail, textInside depth (.place reached.location :: tail) =
        textInside depth tail := fun tail => by
      cases depth with
      | zero => rfl
      | succ depth => rfl
    have told : eventsFrom source tracker (piece :: rest) ++ ends =
        .place reached.location :: (eventsOfMarkup piece.1 ++
          (eventsFrom source reached rest ++ ends)) := by
      rw [← List.append_assoc]
      rfl
    rw [told, placed]
    exact textInside_eventsOfMarkup piece.1 (rest.map Prod.fst) depth (ih reached)

/-- Where nothing starts, a start is found behind. -/
theorem start_behind {quiet es before after : List DocumentEvent} {name : String}
    {attributes : Attributes} (hquiet : ∀ name attributes, .startElement name attributes ∉ quiet)
    (h : quiet ++ es = before ++ .startElement name attributes :: after) :
    ∃ later, before = quiet ++ later ∧ es = later ++ .startElement name attributes :: after :=
  found_behind (hquiet name attributes) h

/-- The start among these events is told for a start tag: after the events of the markup before it,
and before the end of the element, if the tag closes it, and the events of the markup behind. -/
def ToldFor (source : List Char) (tracker : Tracker) (pieces : List (Markup × Nat))
    (before : List DocumentEvent) (name : String) (attributes : Attributes)
    (after : List DocumentEvent) : Prop :=
  ∃ earlier content nameLength closed reported later reached,
    pieces = earlier ++ (.openTag content nameLength closed, reported) :: later ∧
    before ++ [.startElement name attributes] =
      eventsFrom source tracker (earlier ++ [(.openTag content nameLength false, reported)]) ∧
    after = (if closed then [.endElement name] else []) ++ eventsFrom source reached later

theorem ToldFor.behind {source : List Char} {tracker : Tracker} {piece : Markup × Nat}
    {pieces : List (Markup × Nat)} {before after : List DocumentEvent} {name : String}
    {attributes : Attributes}
    (h : ToldFor source (tracker.advance source (placeOffset source piece)) pieces before name
      attributes after) :
    ToldFor source tracker (piece :: pieces)
      (.place (tracker.advance source (placeOffset source piece)).location ::
        (eventsOfMarkup piece.1 ++ before)) name attributes after := by
  obtain ⟨earlier, content, nameLength, closed, reported, later, reached, rfl, hbefore, hafter⟩ := h
  refine ⟨piece :: earlier, content, nameLength, closed, reported, later, reached, rfl, ?_, hafter⟩
  rw [List.cons_append, List.append_assoc, hbefore]
  rfl

/-- For every start tag a start is told. -/
theorem exists_start (source : List Char) (tracker : Tracker) (earlier : List (Markup × Nat))
    (content : List Char) (nameLength : Nat) (closed : Bool) (reported : Nat)
    (later : List (Markup × Nat)) :
    ∃ before name attributes after, eventsFrom source tracker
        (earlier ++ (.openTag content nameLength closed, reported) :: later) =
          before ++ .startElement name attributes :: after ∧
      before ++ [.startElement name attributes] =
        eventsFrom source tracker (earlier ++ [(.openTag content nameLength false, reported)]) := by
  induction earlier generalizing tracker with
  | nil =>
    let reached := tracker.advance source (tagStart source reported)
    let entries := (attributesOf content nameLength).map attributeEntry
    let tag := String.ofList (localName (content.take nameLength))
    exact ⟨.place reached.location :: attributeFaults entries, tag, wellFormed entries,
      (if closed then [.endElement tag] else []) ++ eventsFrom source reached later,
      by simp [eventsFrom, eventsOfMarkup, placeOffset, entries, tag, reached],
      by simp [eventsFrom, eventsOfMarkup, placeOffset, entries, tag, reached]⟩
  | cons piece earlier ih =>
    let reached := tracker.advance source (placeOffset source piece)
    obtain ⟨before, name, attributes, after, hevents, hbefore⟩ := ih reached
    refine ⟨.place reached.location :: (eventsOfMarkup piece.1 ++ before), name, attributes, after,
      ?_, ?_⟩
    · rw [List.cons_append, List.cons_append, List.append_assoc, ← hevents]
      rfl
    · rw [List.cons_append, List.cons_append, List.append_assoc, hbefore]
      rfl

/-- Every start among the events of markup is told for a start tag. -/
theorem toldFor_of_eventsFrom {source : List Char} {pieces : List (Markup × Nat)}
    {tracker : Tracker} {before after : List DocumentEvent} {name : String}
    {attributes : Attributes}
    (h : eventsFrom source tracker pieces = before ++ .startElement name attributes :: after) :
    ToldFor source tracker pieces before name attributes after := by
  induction pieces generalizing tracker before with
  | nil => simp [eventsFrom] at h
  | cons piece rest ih =>
    obtain ⟨piece, reported⟩ := piece
    let reached := tracker.advance source (placeOffset source (piece, reported))
    have hplaced : [.place reached.location] ++ (eventsOfMarkup piece ++
        eventsFrom source reached rest) = before ++ .startElement name attributes :: after := h
    obtain ⟨before, rfl, hevents⟩ := start_behind (by simp) hplaced
    cases htag : piece.isTag with
    | false =>
      have hquiet : ∀ name attributes, .startElement name attributes ∉ eventsOfMarkup piece :=
        fun name attributes hmem => by cases (data_eventsOfMarkup htag).1 _ hmem
      obtain ⟨later, rfl, hrest⟩ := start_behind hquiet hevents
      exact (ih hrest).behind
    | true =>
      cases piece with
      | closeTag closing =>
        obtain ⟨later, rfl, hrest⟩ := start_behind (by simp [eventsOfMarkup]) hevents
        exact (ih hrest).behind
      | openTag content nameLength closed =>
        let entries := (attributesOf content nameLength).map attributeEntry
        let tag := String.ofList (localName (content.take nameLength))
        obtain ⟨later, rfl, hstart⟩ : ∃ later, before = attributeFaults entries ++ later ∧
            .startElement tag (wellFormed entries) :: ((if closed then [.endElement tag] else []) ++
              eventsFrom source reached rest) =
                later ++ .startElement name attributes :: after := by
          refine start_behind (fun name attributes hmem => ?_) ?_
          · cases (attributeFaults_flat entries).1 _ hmem
          · rw [← hevents, eventsOfMarkup, List.append_assoc]
            rfl
        cases later with
        | nil =>
          obtain ⟨htag, hafter⟩ := List.cons.inj hstart
          obtain ⟨rfl, rfl⟩ := DocumentEvent.startElement.inj htag
          refine ⟨[], content, nameLength, closed, reported, rest, reached, rfl, ?_, hafter.symm⟩
          simp [eventsFrom, eventsOfMarkup, entries, tag, reached, placeOffset]
        | cons e later =>
          obtain ⟨rfl, hrest⟩ := List.cons.inj hstart
          have hquiet : ∀ name attributes, .startElement name attributes ∉
              (if closed then [DocumentEvent.endElement tag] else []) := by
            cases closed with
            | true => simp
            | false => simp
          obtain ⟨later, rfl, hbehind⟩ := start_behind hquiet hrest
          have found := (ih hbehind).behind
          rwa [eventsOfMarkup, List.append_assoc] at found
      | _ => cases htag

end Document

/-! ### What frames collect -/

namespace Interpreter

/-- No skip is on between these callbacks, other than inside elements among them. -/
def Untouched (i : Interpreter) (es : List DocumentEvent) : Prop :=
  ∀ before, before <+: es → Nested false before → (i.run before).state.isSkipping = false

theorem Untouched.first {i : Interpreter} {es : List DocumentEvent} (h : i.Untouched es) :
    i.state.isSkipping = false := h [] (List.nil_prefix) .nil

theorem Untouched.flat {i : Interpreter} {e : DocumentEvent} {es : List DocumentEvent}
    (h : i.Untouched (e :: es)) (he : e.isFlat = true) : (i.step e).Untouched es :=
  fun before hbefore hn => h (e :: before) (List.cons_prefix_cons.2 ⟨rfl, hbefore⟩) (.flat he hn)

theorem Untouched.element {i : Interpreter} {name closing : String} {attributes : Attributes}
    {inside es : List DocumentEvent} (hn : Nested false inside)
    (h : i.Untouched (.startElement name attributes :: (inside ++ .endElement closing :: es))) :
    (((i.startElement name attributes).run inside).endElement closing).Untouched es := by
  intro before hbefore hnested
  have hprefix : .startElement name attributes :: (inside ++ .endElement closing :: before) <+:
      .startElement name attributes :: (inside ++ .endElement closing :: es) :=
    List.cons_prefix_cons.2 ⟨rfl, (List.prefix_append_right_inj _).2
      (List.cons_prefix_cons.2 ⟨rfl, hbefore⟩)⟩
  have hquiet := h _ hprefix (.element hn hnested)
  rwa [run_cons, run_append, run_cons] at hquiet

theorem startElement_frames (i : Interpreter) (name : String) (attributes : Attributes) :
    ∃ begun, (i.startElement name attributes).frames = { invocations := begun } :: i.frames := by
  cases hs : i.state.isSkipping with
  | true =>
    rw [startElement_skipping hs]
    exact ⟨[], rfl⟩
  | false =>
    rw [startElement_eq hs]
    rcases i.scene.actionsFor i.implicit (i.path.push name) attributes with ⟨sc, actions⟩
    dsimp only
    rcases sc.beginAll name attributes actions with ⟨sc', begun, signals⟩
    exact ⟨begun, rfl⟩

/-- What is no tag leaves all frames but the innermost, which takes text where no skip is on. -/
theorem frames_flat {i : Interpreter} {frame : Frame} {outer : List Frame}
    (hf : i.frames = frame :: outer) {e : DocumentEvent} (he : e.isFlat = true) :
    ∃ text, (i.step e).frames = { frame with text } :: outer ∧
      (i.state.isSkipping = false → text = frame.text ++ String.ofList e.data) := by
  have silent : e.data = [] → (i.step e).frames = i.frames →
      ∃ text, (i.step e).frames = { frame with text } :: outer ∧
        (i.state.isSkipping = false → text = frame.text ++ String.ofList e.data) := by
    intro hdata hframes
    refine ⟨frame.text, hframes.trans hf, fun _ => ?_⟩
    rw [hdata, String.ofList_nil, String.append_empty]
  cases e with
  | startElement name attributes => cases he
  | endElement name => cases he
  | endDocument => cases he
  | characters text =>
    show ∃ collected, (i.characters text).frames = _ ∧ _
    unfold characters
    cases hs : i.state.isSkipping with
    | true => exact ⟨frame.text, hf, fun h => by cases h⟩
    | false =>
      rw [hf]
      exact ⟨frame.text ++ text, rfl, fun _ => by rw [DocumentEvent.data, String.ofList_toList]⟩
  | _ => exact silent rfl rfl

/-- Nested callbacks leave all frames but the innermost, which collects the text directly inside
its element. -/
theorem run_frames {inside : List DocumentEvent} (hn : Nested false inside) {i : Interpreter}
    {frame : Frame} {outer : List Frame} (hf : i.frames = frame :: outer) :
    ∃ text, (i.run inside).frames = { frame with text } :: outer ∧
      (i.Untouched inside → text = frame.text ++ String.ofList (textInside 0 inside)) := by
  generalize ho : false = outermost at hn
  induction hn generalizing i frame outer with
  | nil =>
    refine ⟨frame.text, hf, fun _ => ?_⟩
    rw [textInside, String.ofList_nil, String.append_empty]
  | @flat _ e rest he _ ih =>
    obtain ⟨text, hframes, htext⟩ := frames_flat hf he
    obtain ⟨collected, hrun, hcollected⟩ := ih hframes ho
    refine ⟨collected, hrun, fun hu => ?_⟩
    have hdata : textInside 0 (e :: rest) = e.data ++ textInside 0 rest := by
      have first := textInside_flat (List.forall_mem_singleton.2 he) 0 rest
      rwa [if_pos rfl, List.flatMap_singleton] at first
    rw [hcollected (hu.flat he), htext hu.first, hdata, String.ofList_append, String.append_assoc]
  | stray _ _ => cases ho
  | @element _ name closing attributes inside rest hinside _ ihInside ihRest =>
    obtain ⟨begun, hstart⟩ := startElement_frames i name attributes
    obtain ⟨within, hwithin, -⟩ := ihInside hstart rfl
    have hend := (endElement_shape hwithin closing).2
    obtain ⟨collected, hrun, hcollected⟩ := ihRest (hend.trans hf) ho
    refine ⟨collected, ?_, fun hu => ?_⟩
    · rw [run_cons, run_append, run_cons]
      exact hrun
    · rw [hcollected (hu.element hinside), textInside_element hinside]

/-! ### Bodies -/

/-- The callbacks of a document: what the reader tells, and the end forced for what is open then. -/
def callbacks (i : Interpreter) (source : String) : List DocumentEvent :=
  Document.reported source ++ (i.run (Document.reported source)).forced

theorem calls_events (i : Interpreter) (source : String) :
    (i.run (Document.events source)).calls = (i.run (i.callbacks source)).calls := by
  show (i.run (Document.reported source ++ [.endDocument])).scene.calls = _
  rw [callbacks, run_append, run_append]
  exact congrArg Scene.calls (scene_endDocument _)

/-- The end of an element where no skip is on: its actions are given the text it collected. -/
theorem endElement_tells {i : Interpreter} {frame : Frame} {outer : List Frame}
    (hf : i.frames = frame :: outer) (hs : i.state.isSkipping = false) (closing : String) :
    ∃ ends, ClosedWith closing (Text.trim frame.text) frame.invocations ends ∧
      (i.endElement closing).calls = ends.reverse ++ i.calls := by
  unfold endElement
  rw [hf]
  dsimp only
  rw [hs, Bool.not_false, Bool.or_true, closeFrame_eq]
  generalize hp : ({ i with frames := outer, state := _ } : Interpreter) = popped
  obtain ⟨ends, hclosed, hcalls⟩ :=
    Scene.close_calls closing frame.text frame.invocations popped.scene
  refine ⟨ends, hclosed, ?_⟩
  generalize popped.scene.close closing frame.text frame.invocations = closed at hcalls ⊢
  rw [show i.calls = popped.scene.calls by rw [← hp]; rfl]
  exact hcalls

/-- The calls of an element that no skip touches. -/
theorem element_tells {i : Interpreter} {name : String} {attributes : Attributes}
    {inside : List DocumentEvent} (hn : Nested false inside)
    (hu : (i.startElement name attributes).Untouched inside) (closing : String) :
    ∃ begins begun within ends, Opened name attributes begins begun ∧
      History false inside within ∧
      ClosedWith closing (Text.trim (String.ofList (textInside 0 inside))) begun ends ∧
      (((i.startElement name attributes).run inside).endElement closing).calls =
        (begins ++ within ++ ends).reverse ++ i.calls := by
  obtain ⟨begins, begun, hopened, hopen, hbegins⟩ := startElement_calls i name attributes
  obtain ⟨begun', hstart⟩ := startElement_frames i name attributes
  obtain rfl : begun' = begun := by
    rw [openActions, hstart] at hopen
    exact (List.cons.inj hopen).1
  obtain ⟨within, hwithin, -, hcalls⟩ := run_history hn fun h => by cases h
  obtain ⟨text, hframes, htext⟩ := run_frames hn hstart
  obtain rfl := htext hu
  obtain ⟨ends, hclosed, hends⟩ :=
    endElement_tells hframes (hu inside (List.prefix_refl _) hn) closing
  rw [String.empty_append] at hclosed
  refine ⟨begins, begun', within, ends, hopened, hwithin, hclosed, ?_⟩
  rw [hends, hcalls, hbegins]
  simp only [List.reverse_append, List.append_assoc]

/-- Every start tag of a document has its element among the callbacks. -/
theorem exists_element_of_openTag {i : Interpreter} (hf : i.frames = []) (hp : i.path = .empty)
    {source : String} {earlier later : List (Document.Markup × Nat)} {content : List Char}
    {nameLength reported : Nat} {closed : Bool}
    (hsource : Document.markupOf source.toList =
      earlier ++ (.openTag content nameLength closed, reported) :: later) :
    ∃ e : Element (i.callbacks source), e.before ++ [.startElement e.name e.attributes] =
      .startDocument :: Document.eventsFrom source.toList {}
        (earlier ++ [(.openTag content nameLength false, reported)]) := by
  have halign : i.Aligned := by
    unfold Aligned
    rw [hf, hp]
    rfl
  obtain ⟨before, name, attributes, after, hevents, hbefore⟩ :=
    Document.exists_start source.toList {} earlier content nameLength closed reported later
  have hstart : Document.reported source ++ (i.run (Document.reported source)).forced =
      .startDocument :: before ++ .startElement name attributes ::
        (after ++ (i.run (Document.reported source)).forced) := by
    rw [Document.reported, hsource, hevents]
    simp
  obtain ⟨e, hstarts, hname, hattributes⟩ :=
    exists_element halign (Document.endDocument_not_mem_reported source) hstart
  refine ⟨e, ?_⟩
  rw [hstarts, hname, hattributes, List.cons_append, hbefore]

/-- The text of an element. Take any element of a document that no skip touches: the interpreter
does not skip at its start, nor anywhere up to its end but inside the elements inside it. The
calls between its start and its end are its begins, those of the elements inside, and at the end,
if its text is not empty, one body for each action that began, with the text, and the ends. The
text is the character data that lies directly inside the element in the document, trimmed; the
texts of the markup that it is put together from come without blanks at their own ends. -/
theorem body_text {i : Interpreter} {source : String} (e : Element (i.callbacks source))
    (hu : (i.run (e.before ++ [.startElement e.name e.attributes])).Untouched e.inside) :
    (∀ piece ∈ Document.markupOf source.toList, piece.1.Trimmed) ∧
    ∃ earlier content nameLength closed reported later,
      Document.markupOf source.toList =
        earlier ++ (.openTag content nameLength closed, reported) :: later ∧
      e.before ++ [.startElement e.name e.attributes] =
        .startDocument :: Document.eventsFrom source.toList {}
          (earlier ++ [(.openTag content nameLength false, reported)]) ∧
      let data := if closed then [] else Document.dataInside 0 (later.map Prod.fst)
      ∃ begins begun within ends, Opened e.name e.attributes begins begun ∧
        History false e.inside within ∧
        ClosedWith e.closing (Text.trim (String.ofList data)) begun ends ∧
        (i.run (e.before ++ e.itself)).calls =
          (begins ++ within ++ ends).reverse ++ (i.run e.before).calls ∧
        (i.run (Document.events source)).calls =
          ((i.run (e.before ++ e.itself)).run e.after).calls := by
  have hsplit : Document.reported source ++ (i.run (Document.reported source)).forced =
      e.before ++ .startElement e.name e.attributes ::
        (e.inside ++ .endElement e.closing :: e.after) := e.split
  obtain ⟨told, hreported, hafter⟩ := start_before_forced hsplit
  obtain ⟨before, hbefore, hevents⟩ := Document.start_behind (by simp)
    (show [.startDocument] ++ Document.eventsFrom source.toList {}
      (Document.markupOf source.toList) = _ from hreported)
  obtain ⟨earlier, content, nameLength, closed, reported, later, reached, hsource, hstart, htold⟩ :=
    Document.toldFor_of_eventsFrom hevents
  refine ⟨Document.markupOf_trimmed _, earlier, content, nameLength, closed, reported, later,
    hsource, ?_, ?_⟩
  · rw [hbefore, List.append_assoc, hstart]
    rfl
  intro data
  have hends : ∀ depth, textInside depth (i.run (Document.reported source)).forced = [] :=
    textInside_ends fun _ => mem_forced
  have hdata : textInside 0 e.inside = data := by
    have hclose : textInside 0 (e.inside ++ .endElement e.closing :: e.after) =
        textInside 0 e.inside := by
      rw [textInside_nested e.nested]
      exact List.append_nil _
    rw [← hclose, hafter, htold, List.append_assoc]
    cases closed with
    | true => rfl
    | false => exact Document.textInside_eventsFrom source.toList reached later 0 hends
  rw [run_append, run_cons, run_nil] at hu
  obtain ⟨begins, begun, within, ends, hopened, hwithin, hclosed, hcalls⟩ :=
    element_tells e.nested hu e.closing
  rw [hdata] at hclosed
  refine ⟨begins, begun, within, ends, hopened, hwithin, hclosed, ?_, ?_⟩
  · rw [run_append, Element.itself, run_cons, run_append, run_cons, run_nil]
    exact hcalls
  · have hwhole : i.callbacks source = e.before ++ e.itself ++ e.after :=
      e.split.trans (by simp [Element.itself])
    rw [calls_events, ← run_append]
    exact congrArg (fun es => (i.run es).calls) hwhole

/-- The text of the outer element comes in three pieces, around an element with text of its own and
a comment. -/
theorem body_text_pieces :
    let keep : Action :=
      { name := "Keep"
        begin := fun name _ => pure (some (.note name))
        body := fun _ text _ s => (.ok () s, some (.note text)) }
    let i : Interpreter :=
      { rules := { rules := [(⟨["a"]⟩, [keep]), (⟨["a", "b"]⟩, [keep])] }, session := {} }
    let source := "<a>x<b> y</b><!-- c --> z &amp;<![CDATA[ <w> ]]></a>"
    (i.run (Document.events source)).calls.reverse.filterMap (fun
      | .body _ name text _ _ => some (name, text)
      | _ => none) = [("b", "y"), ("a", "xz & <w>")] ∧
    ∃ e : Element (i.callbacks source), e.name = "a" ∧
      (i.run (e.before ++ [.startElement e.name e.attributes])).Untouched e.inside ∧
      (∀ piece ∈ Document.markupOf source.toList, piece.1.Trimmed) ∧
      ∃ earlier content nameLength closed reported later,
        Document.markupOf source.toList =
          earlier ++ (.openTag content nameLength closed, reported) :: later ∧
        e.before ++ [.startElement e.name e.attributes] =
          .startDocument :: Document.eventsFrom source.toList {}
            (earlier ++ [(.openTag content nameLength false, reported)]) ∧
        let data := if closed then [] else Document.dataInside 0 (later.map Prod.fst)
        ∃ begins begun within ends, Opened e.name e.attributes begins begun ∧
          History false e.inside within ∧
          ClosedWith e.closing (Text.trim (String.ofList data)) begun ends ∧
          (i.run (e.before ++ e.itself)).calls =
            (begins ++ within ++ ends).reverse ++ (i.run e.before).calls ∧
          (i.run (Document.events source)).calls =
            ((i.run (e.before ++ e.itself)).run e.after).calls := by
  intro keep i source
  let inner : List DocumentEvent := [.place ⟨1, 10⟩, .characters "y", .place ⟨1, 14⟩]
  let behind : List DocumentEvent := [.place ⟨1, 24⟩, .place ⟨1, 32⟩, .characters "z &",
    .place ⟨1, 49⟩, .characters " <w> ", .place ⟨1, 53⟩]
  let inside : List DocumentEvent := .place ⟨1, 5⟩ :: .characters "x" :: .place ⟨1, 5⟩ ::
    .startElement "b" [] :: (inner ++ .endElement "b" :: behind)
  have quiet : ∀ n ≤ inside.length, ((i.run [.startDocument, .place ⟨1, 1⟩,
      .startElement "a" []]).run (inside.take n)).state.isSkipping = false := by decide +kernel
  have hinner : Nested false inner := .flat rfl (.flat rfl (.flat rfl .nil))
  have hbehind : Nested false behind :=
    .flat rfl (.flat rfl (.flat rfl (.flat rfl (.flat rfl (.flat rfl .nil)))))
  let e : Element (i.callbacks source) :=
    { before := [.startDocument, .place ⟨1, 1⟩], name := "a", attributes := [], inside,
      closing := "a", after := [.place ⟨1, 53⟩], split := by decide +kernel,
      nested := .flat rfl (.flat rfl (.flat rfl (.element hinner hbehind))) }
  have hu : (i.run (e.before ++ [.startElement e.name e.attributes])).Untouched e.inside := by
    intro before hbefore _
    rw [List.prefix_iff_eq_take.1 hbefore]
    exact quiet _ hbefore.length_le
  exact ⟨by decide +kernel, e, rfl, hu, body_text e hu⟩

end Interpreter
end LogConfig
