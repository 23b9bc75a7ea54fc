import LogConfig.Proofs.Dispatch.Body
import LogConfig.Proofs.Document.Reading

/-
  The place told before an element. The tracker is never ahead of the reader (`ReadTo.standing`), so
  the place is that of the `<` which the search backwards from the end of the tag finds
  (`startElement_place`). That is the `<` that opens the tag exactly if the tag has no other: the
  reader does not stop at one inside an attribute value.
-/

namespace LogConfig.Document

open Text

/-! ### Places and texts -/

/-- The place of the character that follows a text at the start of a document: its line is one more
than the line ends before it, its column one more than the characters before it on its line. -/
def placeAfter (cs : List Char) : Location :=
  ⟨cs.count '\n' + 1, (cs.reverse.takeWhile (· ≠ '\n')).length + 1⟩

theorem after_placeAfter (cs : List Char) (c : Char) :
    after (placeAfter cs) c = placeAfter (cs ++ [c]) := by
  unfold after placeAfter
  by_cases hc : c = '\n'
  · subst hc
    simp
  · simp [hc]

theorem foldl_after_placeAfter (cs more : List Char) :
    more.foldl after (placeAfter cs) = placeAfter (cs ++ more) := by
  induction more generalizing cs with
  | nil => rw [List.foldl_nil, List.append_nil]
  | cons c more ih =>
    rw [List.foldl_cons, after_placeAfter, ih, List.append_assoc, List.singleton_append]

/-- No two characters of a document have the same place. -/
theorem placeAfter_append_eq_iff {cs more : List Char} :
    placeAfter (cs ++ more) = placeAfter cs ↔ more = [] := by
  constructor
  · intro h
    obtain ⟨hline, hcolumn⟩ := Location.mk.inj h
    have hlines : '\n' ∉ more := List.count_eq_zero.1 (by rw [List.count_append] at hline; omega)
    have hcolumns : ∀ c ∈ more.reverse, decide (c ≠ '\n') = true := fun c hc =>
      decide_eq_true fun he => hlines (he ▸ List.mem_reverse.1 hc)
    rw [List.reverse_append, List.takeWhile_append_of_pos hcolumns, List.length_append,
      List.length_reverse] at hcolumn
    exact List.length_eq_zero_iff.1 (by omega)
  · rintro rfl
    rw [List.append_nil]

/-! ### The tracker -/

/-- A tracker has counted just this text. -/
structure Tracker.Counts (t : Tracker) (read : List Char) : Prop where
  offset : t.offset = byteSize read
  location : t.location = placeAfter read

theorem eq_nil_of_byteSize {cs : List Char} (h : byteSize cs = 0) : cs = [] := by
  cases cs with
  | nil => rfl
  | cons c cs =>
    have hpos := c.utf8Size_pos
    rw [byteSize_cons] at h
    omega

theorem stretch_append (read more rest : List Char) :
    stretch (read ++ more ++ rest) (byteSize read) (byteSize (read ++ more)) = more := by
  rw [stretch, List.append_assoc, dropBytes?_byteSize_append, Option.bind_some, byteSize_append,
    Nat.add_sub_cancel_left, takeBytes?_byteSize_append, Option.getD_some]

/-- Moved to the end of a longer text that the source begins with, a tracker has counted this. -/
theorem Tracker.Counts.advance {source read further : List Char} {t : Tracker} (h : t.Counts read)
    (hread : read <+: further) (hfurther : further <+: source) :
    (t.advance source (byteSize further)).Counts further := by
  obtain ⟨more, rfl⟩ := hread
  obtain ⟨rest, rfl⟩ := hfurther
  have hstop : min (byteSize (read ++ more)) (byteSize (read ++ more ++ rest)) =
      byteSize (read ++ more) := by
    rw [byteSize_append (read ++ more)]
    omega
  unfold Tracker.advance
  dsimp only
  rw [hstop, h.offset]
  split
  · refine ⟨rfl, ?_⟩
    rw [stretch_append, h.location, foldl_after_placeAfter]
  · next hend =>
    have hmore : more = [] := eq_nil_of_byteSize (by rw [byteSize_append] at hend; omega)
    rw [hmore, List.append_nil]
    exact h

/-- The tracker after the places of these pieces were told. -/
def trackerAfter (source : List Char) (t : Tracker) (pieces : List (Markup × Nat)) : Tracker :=
  pieces.foldl (fun t piece => t.advance source (placeOffset source piece)) t

theorem trackerAfter_append (source : List Char) (t : Tracker) (ps qs : List (Markup × Nat)) :
    trackerAfter source t (ps ++ qs) = trackerAfter source (trackerAfter source t ps) qs :=
  List.foldl_append

theorem eventsFrom_append (source : List Char) (t : Tracker) (ps qs : List (Markup × Nat)) :
    eventsFrom source t (ps ++ qs) =
      eventsFrom source t ps ++ eventsFrom source (trackerAfter source t ps) qs := by
  induction ps generalizing t with
  | nil => rfl
  | cons p ps ih =>
    rw [List.cons_append, eventsFrom, eventsFrom, ih, List.append_assoc]
    rfl

/-- Pieces that are no start tags, all at the end of one text. -/
theorem Tracker.Counts.advance_all {source head : List Char} (hhead : head <+: source)
    (pieces : List (Markup × Nat)) (hpieces : ∀ piece ∈ pieces,
      placeOffset source piece = byteSize head) {t : Tracker}
    (h : ∃ read, read <+: head ∧ t.Counts read) :
    ∃ read, read <+: head ∧ (trackerAfter source t pieces).Counts read := by
  induction pieces generalizing t with
  | nil => exact h
  | cons piece pieces ih =>
    obtain ⟨read, hread, hcounts⟩ := h
    have hmoved := hcounts.advance hread hhead
    rw [← hpieces piece List.mem_cons_self] at hmoved
    exact ih (fun p hp => hpieces p (List.mem_cons_of_mem _ hp)) ⟨head, List.prefix_refl _, hmoved⟩

/-! ### The search for the start of a tag -/

theorem byteSize_reverse (cs : List Char) : byteSize cs.reverse = byteSize cs := by
  induction cs with
  | nil => rfl
  | cons c cs ih => simp [ih, Nat.add_comm]

theorem lastOpening?_append {before behind : List Char} (h : '<' ∉ behind) :
    lastOpening? (before ++ '<' :: behind) = some (byteSize before) := by
  have hskip : ∀ c ∈ behind.reverse, decide (c ≠ '<') = true := fun c hc =>
    decide_eq_true fun he => h (he ▸ List.mem_reverse.1 hc)
  have hreverse : (before ++ '<' :: behind).reverse = behind.reverse ++ '<' :: before.reverse := by
    simp
  rw [lastOpening?, hreverse, List.dropWhile_append_of_pos hskip, ← byteSize_reverse before]
  rfl

/-- The text is the rest of a tag behind its `<`; the last `<` of the tag lies behind this part of
it. -/
def LastOpening (text skipped : List Char) : Prop :=
  ∃ behind, '<' :: text = skipped ++ '<' :: behind ∧ '<' ∉ behind

theorem exists_lastOpening (text : List Char) : ∃ skipped, LastOpening text skipped := by
  obtain ⟨behind, skipped, hsplit, hbehind⟩ :=
    List.eq_append_cons_of_mem (show '<' ∈ ('<' :: text).reverse by simp)
  refine ⟨skipped.reverse, behind.reverse, ?_, by rwa [List.mem_reverse]⟩
  rw [← List.reverse_reverse ('<' :: text), hsplit]
  simp

theorem LastOpening.eq_nil_iff {text skipped : List Char} (h : LastOpening text skipped) :
    skipped = [] ↔ '<' ∉ text := by
  obtain ⟨behind, hsplit, hbehind⟩ := h
  cases skipped with
  | nil =>
    obtain ⟨-, rfl⟩ := List.cons.inj hsplit
    exact iff_of_true rfl hbehind
  | cons c skipped =>
    obtain ⟨-, rfl⟩ := List.cons.inj hsplit
    exact iff_of_false nofun fun hnot => hnot (by simp)

theorem tagStart_eq {source head text rest skipped : List Char}
    (hsource : source = head ++ '<' :: text ++ rest) (h : LastOpening text skipped) :
    tagStart source (byteSize (head ++ '<' :: text)) = byteSize (head ++ skipped) := by
  obtain ⟨behind, hsplit, hbehind⟩ := h
  rw [tagStart, hsource, takeBytes?_byteSize_append, Option.bind_some, hsplit, ← List.append_assoc,
    lastOpening?_append hbehind, Option.getD_some]

/-! ### What the reader has taken, and the tracker behind it -/

theorem placeOffset_of_not_openTag {source : List Char} {piece : Markup × Nat}
    (h : piece.1.isOpenTag = false) : placeOffset source piece = piece.2 := by
  obtain ⟨markup, reported⟩ := piece
  cases markup with
  | openTag content nameLength closed => cases h
  | _ => rfl

theorem placeOffset_of_openTag {source : List Char} {piece : Markup × Nat}
    (h : piece.1.isOpenTag = true) : placeOffset source piece = tagStart source piece.2 := by
  obtain ⟨markup, reported⟩ := piece
  cases markup with
  | openTag content nameLength closed => rfl
  | _ => cases h

/-- A reader that has told these pieces and has this left has taken this text, and the tracker is
not beyond it. -/
structure Standing (source : List Char) (told : List (Markup × Nat)) (left : Remaining)
    (taken : List Char) : Prop where
  isPrefix : taken <+: source
  offset : left.offset = byteSize taken
  rest : source = taken ++ left.rest ∨ left.rest = []
  tracker : ∃ read, read <+: taken ∧ (trackerAfter source {} told).Counts read

variable {source : List Char} {told : List (Markup × Nat)} {left : Remaining}

/-- Before a tag: the offset is that behind its `<`, and the tracker is not beyond the `<`. -/
theorem Standing.text {taken inside : List Char} (h : Standing source told left taken)
    {texts : List (Markup × Nat)} {stop : Nat}
    (hread : readText left.offset left.rest = (texts, stop, some inside)) :
    ∃ head, source = head ++ '<' :: inside ∧ stop = byteSize head + 1 ∧
      ∃ read, read <+: head ∧ (trackerAfter source {} (told ++ texts)).Counts read := by
  obtain ⟨skipped, hrest, hstop, htexts⟩ := readText_some hread
  have hsource : source = taken ++ skipped ++ '<' :: inside := by
    rcases h.rest with hsource | hnone
    · rw [hsource, hrest, List.append_assoc]
    · rw [hnone] at hrest
      cases skipped <;> cases hrest
  rw [h.offset, ← byteSize_append] at hstop htexts
  refine ⟨taken ++ skipped, hsource, hstop, ?_⟩
  rw [trackerAfter_append]
  obtain ⟨read, hprefix, hcounts⟩ := h.tracker
  refine Tracker.Counts.advance_all ⟨_, hsource.symm⟩ texts (fun piece hpiece => ?_)
    ⟨read, hprefix.trans (List.prefix_append _ _), hcounts⟩
  rw [placeOffset_of_not_openTag (htexts piece hpiece).1, (htexts piece hpiece).2]

/-- At a start tag the tracker moves to the last `<` of it. -/
theorem Tracker.Counts.openTag {head text inside skipped read : List Char} {t : Tracker}
    (h : t.Counts read) (hread : read <+: head) (hsource : source = head ++ '<' :: inside)
    (htext : text <+: inside) (hlast : LastOpening text skipped) :
    head ++ skipped <+: head ++ '<' :: text ∧
      (t.advance source (tagStart source (byteSize (head ++ '<' :: text)))).Counts
        (head ++ skipped) := by
  obtain ⟨rest, rfl⟩ := htext
  have hall : source = head ++ '<' :: text ++ rest := by simp [hsource]
  have hskipped : head ++ skipped <+: head ++ '<' :: text := by
    obtain ⟨behind, hsplit, -⟩ := hlast
    exact ⟨'<' :: behind, by rw [List.append_assoc, ← hsplit]⟩
  refine ⟨hskipped, ?_⟩
  rw [tagStart_eq hall hlast]
  exact h.advance (hread.trans (List.prefix_append _ _)) (hskipped.trans ⟨rest, hall.symm⟩)

/-- Behind a tag. -/
theorem standing_tag {head inside : List Char} {names : List (List Char)}
    (hsource : source = head ++ '<' :: inside)
    (htracker : ∃ read, read <+: head ∧ (trackerAfter source {} told).Counts read)
    (h : (readTag names (byteSize head + 1) inside).remaining = some left) :
    ∃ taken, Standing source (told ++ [((readTag names (byteSize head + 1) inside).markup,
      (readTag names (byteSize head + 1) inside).reported)]) left taken := by
  obtain ⟨text, htook⟩ := readTag_took h
  obtain ⟨read, hread, hcounts⟩ := htracker
  have hopening : Char.utf8Size '<' = 1 := by decide
  have hstop : (readTag names (byteSize head + 1) inside).reported =
      byteSize (head ++ '<' :: text) := by
    rw [htook.told, byteSize_append, byteSize_cons, hopening, Nat.add_assoc]
  have htaken : head ++ '<' :: text <+: source := by
    obtain ⟨rest, hrest⟩ := htook.taken
    exact ⟨rest, by rw [hsource, ← hrest]; simp⟩
  refine ⟨head ++ '<' :: text, htaken, htook.next.trans hstop, ?_, ?_⟩
  · rcases htook.rest with hrest | hnone
    · exact .inl (by rw [hsource, hrest]; simp)
    · exact .inr hnone
  · rw [trackerAfter_append, trackerAfter, List.foldl_cons, List.foldl_nil]
    cases htag : (readTag names (byteSize head + 1) inside).markup.isOpenTag with
    | true =>
      -- the search ends at a `<` of the tag itself, so the tracker is not behind it yet
      obtain ⟨skipped, hlast⟩ := exists_lastOpening text
      obtain ⟨hskipped, hmoved⟩ := hcounts.openTag hread hsource htook.taken hlast
      rw [placeOffset_of_openTag htag, hstop]
      exact ⟨_, hskipped, hmoved⟩
    | false =>
      rw [placeOffset_of_not_openTag htag, hstop]
      exact ⟨_, List.prefix_refl _, hcounts.advance (hread.trans (List.prefix_append _ _)) htaken⟩

/-- In every state the reader stands where its offset says, and the tracker is not beyond it. -/
theorem ReadTo.standing (h : ReadTo source told left) :
    ∃ taken, Standing source told left taken := by
  induction h with
  | start => exact ⟨[], List.nil_prefix, rfl, .inl rfl, [], List.nil_prefix, rfl, rfl⟩
  | tag _ htext hremaining ih =>
    obtain ⟨taken, hstanding⟩ := ih
    obtain ⟨head, hsource, rfl, htracker⟩ := hstanding.text htext
    exact standing_tag hsource htracker hremaining

/-! ### The place of an element -/

/-- The reader has told these pieces and comes to a tag: its `<` lies between these two parts of
the source, and these names are open. -/
def AtTag (source : List Char) (told : List (Markup × Nat)) (names : List (List Char))
    (head inside : List Char) : Prop :=
  source = head ++ '<' :: inside ∧ ∃ before texts left stop, ReadTo source before left ∧
    told = before ++ texts ∧ names = left.openNames ∧
    readText left.offset left.rest = (texts, stop, some inside)

/-- The start of an element, told after these events, is that of the tag whose `<` lies between
these two parts of the source: the reader comes to this tag after what was told before, and reads
it as a start tag for which this start is told. -/
def StartsAt (source : String) (before : List DocumentEvent) (name : String)
    (attributes : Attributes) (head inside : List Char) : Prop :=
  ∃ told names content nameLength closed, AtTag source.toList told names head inside ∧
    let tag := readTag names (byteSize head + 1) inside
    tag.markup = .openTag content nameLength closed ∧
    before ++ [.startElement name attributes] =
      .startDocument :: eventsFrom source.toList {}
        (told ++ [(.openTag content nameLength false, tag.reported)])

/-- The place that was told last. -/
def lastPlace? (es : List DocumentEvent) : Option Location :=
  es.reverse.findSome? fun
    | .place l => some l
    | _ => none

theorem lastPlace?_append {es quiet : List DocumentEvent} {l : Location}
    (h : ∀ e ∈ quiet, ∃ message, e = .error message) :
    lastPlace? (es ++ .place l :: quiet) = some l := by
  have hquiet : quiet.reverse.findSome? (fun
      | .place l => some l
      | _ => none) = none := by
    refine List.findSome?_eq_none_iff.2 fun e he => ?_
    obtain ⟨message, rfl⟩ := h e (List.mem_reverse.1 he)
    rfl
  rw [lastPlace?, List.reverse_append, List.reverse_cons, List.append_assoc, List.findSome?_append,
    hquiet]
  rfl

/-- Between the place of a start tag and the start come at most the faults of its attributes. -/
theorem lastPlace?_of_openTag {source : List Char} {before : List DocumentEvent}
    {told : List (Markup × Nat)} {name : String} {attributes : Attributes} {content : List Char}
    {nameLength reported : Nat} (h : before ++ [.startElement name attributes] =
      .startDocument :: eventsFrom source {}
        (told ++ [(.openTag content nameLength false, reported)])) :
    lastPlace? before = some ((trackerAfter source {} told).advance source
      (tagStart source reported)).location := by
  let entries := (attributesOf content nameLength).map attributeEntry
  let tag := String.ofList (localName (content.take nameLength))
  let reached := (trackerAfter source {} told).advance source (tagStart source reported)
  have hevents : before ++ [.startElement name attributes] =
      (.startDocument :: eventsFrom source {} told ++ .place reached.location ::
        attributeFaults entries) ++ [.startElement tag (wellFormed entries)] := by
    rw [h, eventsFrom_append]
    simp [eventsFrom, eventsOfMarkup, placeOffset, entries, tag, reached]
  obtain ⟨rfl, -⟩ := List.append_inj' hevents rfl
  exact lastPlace?_append (attributeFaults_error entries)

/-- Every start is told for a tag that the reader comes to. -/
theorem exists_startsAt {source : String} (hmark : withoutMark source.toList = source.toList)
    {before after : List DocumentEvent} {name : String} {attributes : Attributes}
    (h : events source = before ++ .startElement name attributes :: after) :
    ∃ head inside, StartsAt source before name attributes head inside := by
  have hbegun : [.startDocument] ++ (eventsFrom source.toList {} (markupOf source.toList) ++
      [.endDocument]) = before ++ .startElement name attributes :: after := h
  obtain ⟨before, rfl, htold⟩ := start_behind (by simp) hbegun
  obtain ⟨later, hafter⟩ : ∃ later, eventsFrom source.toList {} (markupOf source.toList) =
      before ++ .startElement name attributes :: later := by
    rcases List.append_eq_append_iff.1 htold with ⟨more, -, hmore⟩ | ⟨more, hevents, hmore⟩
    · cases more <;> simp at hmore
    · cases more with
      | nil => simp at hmore
      | cons e more =>
        obtain ⟨rfl, -⟩ := List.cons.inj hmore
        exact ⟨more, hevents⟩
  obtain ⟨earlier, content, nameLength, closed, reported, later, reached, hmarkup, hstart, -⟩ :=
    toldFor_of_eventsFrom hafter
  rw [markupOf, hmark] at hmarkup
  obtain ⟨told, left, texts, stop, inside, hread, htexts, htext, htag, hreported⟩ :=
    exists_readTo_of_openTag rfl earlier .start hmarkup
  obtain ⟨taken, hstanding⟩ := hread.standing
  obtain ⟨head, hsource, rfl, -⟩ := hstanding.text htext
  refine ⟨head, inside, earlier, left.openNames, content, nameLength, closed,
    ⟨hsource, told, texts, left, _, hread, htexts, rfl, htext⟩, htag, ?_⟩
  rw [hreported, List.cons_append, List.nil_append, List.cons_append, hstart]

/-- The place told before the start is that of the last `<` in this tag. -/
theorem StartsAt.place {source : String} {before : List DocumentEvent} {name : String}
    {attributes : Attributes} {head inside skipped : List Char}
    (h : StartsAt source before name attributes head inside)
    (hlast : LastOpening (tagText inside) skipped) :
    lastPlace? before = some (placeAfter (head ++ skipped)) := by
  obtain ⟨told, names, content, nameLength, closed, ⟨hsource, hat⟩, htag, hbefore⟩ := h
  obtain ⟨pieces, texts, left, stop, hread, rfl, rfl, htext⟩ := hat
  obtain ⟨taken, hstanding⟩ := hread.standing
  obtain ⟨head', hsource', -, read, hprefix, hcounts⟩ := hstanding.text htext
  obtain rfl : head = head' := List.append_cancel_right (hsource.symm.trans hsource')
  have hreported := (readTag_openTag (by rw [htag]; rfl)).1
  have hstop : byteSize head + 1 + byteSize (tagText inside) =
      byteSize (head ++ '<' :: tagText inside) := by
    rw [byteSize_append, byteSize_cons, show Char.utf8Size '<' = 1 by decide, Nat.add_assoc]
  rw [lastPlace?_of_openTag hbefore, hreported, hstop,
    (hcounts.openTag hprefix hsource (tagText_starts inside) hlast).2.location]

/-- The place told before an element. For every start of an element there is the tag that it is
told for. The place is that of the last `<` in this tag, as far as the reader took it: of the `<`
that opens the tag exactly if there is no further one in it. -/
theorem startElement_place {source : String} (hmark : withoutMark source.toList = source.toList)
    {before after : List DocumentEvent} {name : String} {attributes : Attributes}
    (h : events source = before ++ .startElement name attributes :: after) :
    (∃ head inside, StartsAt source before name attributes head inside) ∧
      ∀ head inside, StartsAt source before name attributes head inside →
        (∃ skipped, LastOpening (tagText inside) skipped ∧
          lastPlace? before = some (placeAfter (head ++ skipped))) ∧
        (lastPlace? before = some (placeAfter head) ↔ '<' ∉ tagText inside) := by
  refine ⟨exists_startsAt hmark h, fun head inside hstarts => ?_⟩
  obtain ⟨skipped, hlast⟩ := exists_lastOpening (tagText inside)
  have hplace := hstarts.place hlast
  refine ⟨⟨skipped, hlast, hplace⟩, ?_⟩
  rw [hplace, ← hlast.eq_nil_iff, Option.some.injEq]
  exact placeAfter_append_eq_iff

/-- A tag over two lines, with a `>` in quotes and behind a letter of two bytes. -/
theorem startElement_place_lines :
    let source := "<a>\n \u00e9<b c=\">\"\n d='e'/></a>"
    let before : List DocumentEvent := [.startDocument, .place ⟨1, 1⟩, .startElement "a" [],
      .place ⟨2, 3⟩, .characters "\u00e9", .place ⟨2, 3⟩]
    ∃ head inside, StartsAt source before "b" [("c", ">"), ("d", "e")] head inside ∧
      head = "<a>\n \u00e9".toList ∧ lastPlace? before = some (placeAfter head) := by
  intro source before
  let inside := "b c=\">\"\n d='e'/></a>".toList
  let outer : Markup × Nat := (.openTag ['a'] 1 false, 3)
  let letter : Markup × Nat := (.text ['\u00e9'], 7)
  have hevents : events source = before ++ .startElement "b" [("c", ">"), ("d", "e")] ::
      [.endElement "b", .place ⟨3, 13⟩, .endElement "a", .place ⟨3, 13⟩, .endDocument] := by
    decide +kernel
  have hread : ReadTo source.toList [outer] ⟨[['a']], 3, source.toList.drop 3⟩ := by
    have htext : readText 0 source.toList = ([], 1, some (source.toList.drop 1)) := by decide
    have htag : readTag [] 1 (source.toList.drop 1) =
        ⟨outer.1, outer.2, some ⟨[['a']], 3, source.toList.drop 3⟩⟩ := by decide
    have hstep := ReadTo.start.tag htext (congrArg Reading.remaining htag)
    rwa [htag] at hstep
  have hstarts : StartsAt source before "b" [("c", ">"), ("d", "e")] "<a>\n \u00e9".toList
      inside := by
    refine ⟨[outer, letter], [['a']], "b c=\">\"\n d='e'".toList, 1, true, ⟨by decide, [outer],
      [letter], _, 8, hread, rfl, rfl, ?_⟩, ?_, ?_⟩
    · decide
    · decide
    · decide +kernel
  have hplace := startElement_place (by decide) hevents
  exact ⟨_, _, hstarts, rfl, (hplace.2 _ _ hstarts).2.2 (by decide)⟩

/-- A `<` inside an attribute value: the place told is that of this one. -/
theorem startElement_place_quoted :
    let source := "<a b=\"<\"/>"
    let before : List DocumentEvent := [.startDocument, .place ⟨1, 7⟩]
    events source = before ++ .startElement "a" [("b", "<")] ::
        [.endElement "a", .place ⟨1, 11⟩, .endDocument] ∧
      StartsAt source before "a" [("b", "<")] [] "a b=\"<\"/>".toList ∧
      lastPlace? before ≠ some (placeAfter []) := by
  intro source before
  refine ⟨by decide +kernel, ?_, by decide⟩
  refine ⟨[], [], "a b=\"<\"".toList, 1, true, ⟨by decide, [], [], ⟨[], 0, source.toList⟩, 1,
    .start, rfl, rfl, by decide⟩, by decide, by decide +kernel⟩

end LogConfig.Document
