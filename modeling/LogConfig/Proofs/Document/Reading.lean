import LogConfig.Document.Event
import LogConfig.Proofs.Text.Trimming

/-
  What the reader takes of a document. Every tag is read from the text behind its `<`, and the
  reader goes on with what follows its `>`, at the byte offset of that text (`readTag_took`); in one
  other way it leaves the text, where the document ends inside a start tag. The text between tags is
  told without the blanks at its ends (`readText_told`, `markupOf_trimmed`). The states that a
  reader goes through are those of `ReadTo`: for every start tag in the markup there is one in which
  the reader has come to it (`exists_readTo_of_openTag`).
-/

namespace LogConfig.Document

open Text

deriving instance DecidableEq for Remaining

deriving instance DecidableEq for Reading

/-! ### How a text is split at the end of a tag -/

/-- A text that ends with a `>`, and what follows; or all of it, if there is no such `>`. -/
def upToClosing (content : List Char) (rest : Option (List Char)) : List Char :=
  content ++ rest.elim [] ('>' :: ·)

theorem breakTag_split (quote : Option Char) (cs : List Char) :
    cs = upToClosing (breakTag quote cs).1 (breakTag quote cs).2 := by
  induction cs generalizing quote with
  | nil => rfl
  | cons c cs ih =>
    unfold breakTag
    split
    · next hc =>
      rw [Bool.and_eq_true, decide_eq_true_eq] at hc
      rw [hc.1]
      rfl
    · exact congrArg (c :: ·) (ih _)

theorem breakClosing_split (cs : List Char) :
    cs = upToClosing (breakClosing cs).1 (breakClosing cs).2 := by
  induction cs with
  | nil => rfl
  | cons c cs ih =>
    unfold breakClosing
    split
    · next hc =>
      rw [hc]
      rfl
    · exact congrArg (c :: ·) ih

theorem breakWhere_split {done : List Char → Bool} {before cs content rest : List Char}
    (h : breakWhere done before cs = some (content, rest)) :
    before.reverse ++ cs = upToClosing content (some rest) := by
  induction cs generalizing before with
  | nil => cases h
  | cons c cs ih =>
    unfold breakWhere at h
    split at h
    · next hc =>
      rw [Bool.and_eq_true, decide_eq_true_eq] at hc
      cases h
      rw [hc.1]
      rfl
    · rw [← ih h, List.reverse_cons, List.append_assoc]
      rfl

/-! ### What a tag takes -/

/-- The reader took this text, which stands at this offset, and reports the offset behind it. It
goes on with what follows, or, where the document ended inside a tag, with nothing. -/
structure Took (offset : Nat) (cs : List Char) (reported : Nat) (left : Remaining)
    (text : List Char) : Prop where
  taken : text <+: cs
  told : reported = offset + byteSize text
  next : left.offset = reported
  rest : cs = text ++ left.rest ∨ left.rest = []

/-- The reader goes on after a `>`, or at the end of the document. -/
theorem took_upToClosing (names : List (List Char)) (offset : Nat) (start content : List Char)
    (rest : Option (List Char)) :
    ∃ text, Took offset (start ++ upToClosing content rest)
      (offsetAfter (offset + byteSize start) content rest)
      ⟨names, offsetAfter (offset + byteSize start) content rest, rest.getD []⟩ text := by
  cases rest with
  | none =>
    have hall : start ++ upToClosing content none = start ++ content := by simp [upToClosing]
    rw [hall]
    exact ⟨start ++ content, List.prefix_refl _, by simp [offsetAfter, Nat.add_assoc], rfl,
      .inr rfl⟩
  | some rest =>
    have hend : Char.utf8Size '>' = 1 := by decide
    have hall : start ++ upToClosing content (some rest) = start ++ content ++ ['>'] ++ rest := by
      simp [upToClosing]
    rw [hall]
    exact ⟨start ++ content ++ ['>'], List.prefix_append _ _,
      by simp [offsetAfter, hend, Nat.add_assoc], rfl, .inl rfl⟩

/-- A reading that goes on has taken a text. -/
def Reading.Goes (r : Reading) (offset : Nat) (cs : List Char) : Prop :=
  ∀ left, r.remaining = some left → ∃ text, Took offset cs r.reported left text

theorem proceed_goes (markup : Markup) {reported offset : Nat} {remaining : Remaining}
    {cs : List Char} (h : ∃ text, Took offset cs reported remaining text) :
    (proceed markup reported remaining).Goes offset cs := by
  intro left hleft
  unfold proceed at hleft ⊢
  split at hleft
  · cases hleft
  · cases hleft
    exact h

theorem readUntil_goes (done : List Char → Bool) (markup : List Char → Markup)
    (unfinished : String) (names : List (List Char)) (offset : Nat) (cs : List Char) :
    (readUntil done markup unfinished names offset cs).Goes offset ('!' :: cs) := by
  unfold readUntil
  split
  · exact nofun
  · next content rest h =>
    have hsplit : cs = upToClosing content (some rest) := breakWhere_split h
    have htook := took_upToClosing names offset ['!'] content (some rest)
    have hstop : offsetAfter (offset + byteSize ['!']) content (some rest) =
        offset + byteSize content + 2 := by
      rw [offsetAfter, show byteSize ['!'] = 1 by decide, Option.isSome_some, if_pos rfl]
      omega
    rw [hstop, ← hsplit] at htook
    exact proceed_goes _ htook

theorem readDeclaration_goes (names : List (List Char)) (offset : Nat) (cs : List Char) :
    (readDeclaration names offset cs).Goes offset ('!' :: cs) := by
  unfold readDeclaration
  split
  · exact nofun
  · exact readUntil_goes _ _ _ _ _ _
  · exact readUntil_goes _ _ _ _ _ _
  · split
    · exact readUntil_goes _ _ _ _ _ _
    · exact nofun

theorem readEndTag_goes (names : List (List Char)) (offset : Nat) (cs : List Char) :
    (readEndTag names offset cs).Goes offset ('/' :: cs) := by
  have htook := took_upToClosing names.tail offset ['/'] (breakClosing cs).1 (breakClosing cs).2
  rw [← breakClosing_split, show byteSize ['/'] = 1 by decide] at htook
  intro left hleft
  unfold readEndTag at hleft ⊢
  dsimp only at hleft ⊢
  split at hleft
  · cases hleft
  · cases hleft
    exact htook

theorem readInstruction_goes (names : List (List Char)) (offset : Nat) (cs : List Char) :
    (readInstruction names offset cs).Goes offset cs := by
  have htook := took_upToClosing names offset [] (breakClosing cs).1 (breakClosing cs).2
  rw [← breakClosing_split] at htook
  intro left hleft
  unfold readInstruction at hleft ⊢
  dsimp only at hleft ⊢
  split at hleft
  · next h =>
    rw [if_pos h]
    cases hleft
    exact htook
  · cases hleft

/-- What the reader takes of a start tag behind its `<`: all of it with its `>`, or nothing where
the document ends before there is one outside quotes. -/
def tagText (inside : List Char) : List Char :=
  if (breakTag none inside).2.isSome then (breakTag none inside).1 ++ ['>'] else []

theorem tagText_starts (inside : List Char) : tagText inside <+: inside := by
  unfold tagText
  split
  · next hended =>
    obtain ⟨rest, hrest⟩ := Option.isSome_iff_exists.1 hended
    have hsplit := breakTag_split none inside
    rw [hrest] at hsplit
    exact ⟨rest, by rw [List.append_assoc]; exact hsplit.symm⟩
  · exact List.nil_prefix

theorem readStartTag_eq (names : List (List Char)) (offset : Nat) (cs : List Char) :
    ∃ content nameLength closed openNames, readStartTag names offset cs =
      ⟨.openTag content nameLength closed, offset + byteSize (tagText cs),
        some ⟨openNames, offset + byteSize (tagText cs), (breakTag none cs).2.getD []⟩⟩ := by
  have hstop : (if (breakTag none cs).2.isSome then offset + byteSize (breakTag none cs).1 + 1
      else offset) = offset + byteSize (tagText cs) := by
    have hend : Char.utf8Size '>' = 1 := by decide
    unfold tagText
    split
    · simp [hend, Nat.add_assoc]
    · rfl
  unfold readStartTag
  dsimp only
  rw [hstop]
  split
  · exact ⟨_, _, _, _, rfl⟩
  · exact ⟨_, _, _, _, rfl⟩

theorem readStartTag_goes (names : List (List Char)) (offset : Nat) (cs : List Char) :
    (readStartTag names offset cs).Goes offset cs := by
  obtain ⟨content, nameLength, closed, openNames, hread⟩ := readStartTag_eq names offset cs
  rw [hread]
  intro left hleft
  cases hleft
  refine ⟨tagText cs, tagText_starts cs, rfl, rfl, ?_⟩
  cases hrest : (breakTag none cs).2 with
  | none => exact .inr rfl
  | some rest =>
    have hsplit := breakTag_split none cs
    rw [hrest] at hsplit
    rw [tagText, hrest, Option.isSome_some, if_pos rfl, List.append_assoc]
    exact .inl hsplit

theorem readTag_took {names : List (List Char)} {offset : Nat} {cs : List Char} {left : Remaining}
    (h : (readTag names offset cs).remaining = some left) :
    ∃ text, Took offset cs (readTag names offset cs).reported left text := by
  revert left
  show (readTag names offset cs).Goes offset cs
  unfold readTag
  split
  · exact nofun
  · exact readDeclaration_goes _ _ _
  · exact readEndTag_goes _ _ _
  · exact readInstruction_goes _ _ _
  · exact readStartTag_goes _ _ _

/-! ### What markup a tag is told as -/

section

variable {P : Markup → Prop}

theorem readUntil_told {markup : List Char → Markup} (hmarkup : ∀ content, P (markup content))
    (hfault : ∀ message, P (.fault message)) (done : List Char → Bool) (unfinished : String)
    (names : List (List Char)) (offset : Nat) (cs : List Char) :
    P (readUntil done markup unfinished names offset cs).markup := by
  unfold readUntil
  split
  · exact hfault _
  · next content rest _ =>
    have hcontent := hmarkup content
    unfold proceed
    split
    · exact hfault _
    · exact hcontent

/-- A declaration is an aside, a CDATA section or a fault. -/
theorem readDeclaration_told (haside : P .aside) (hsection : ∀ content, P (.cdata content))
    (hfault : ∀ message, P (.fault message)) (names : List (List Char)) (offset : Nat)
    (cs : List Char) : P (readDeclaration names offset cs).markup := by
  unfold readDeclaration
  split
  · exact hfault _
  · refine readUntil_told (fun content => ?_) hfault _ _ _ _ _
    unfold commentMarkup
    split
    · exact haside
    · exact hfault _
  · refine readUntil_told (fun content => ?_) hfault _ _ _ _ _
    unfold sectionMarkup
    split
    · exact hsection _
    · exact hfault _
  · split
    · refine readUntil_told (fun content => ?_) hfault _ _ _ _ _
      unfold doctypeMarkup
      split
      · split
        · exact hfault _
        · exact haside
      · exact hfault _
    · exact hfault _

theorem readEndTag_told (hclose : ∀ name, P (.closeTag name))
    (hfault : ∀ message, P (.fault message)) (names : List (List Char)) (offset : Nat)
    (cs : List Char) : P (readEndTag names offset cs).markup := by
  unfold readEndTag
  dsimp only
  split
  · exact hfault _
  · unfold closingMarkup
    split
    · exact hfault _
    · split
      · exact hclose _
      · exact hfault _

theorem readInstruction_told (haside : P .aside) (hfault : ∀ message, P (.fault message))
    (names : List (List Char)) (offset : Nat) (cs : List Char) :
    P (readInstruction names offset cs).markup := by
  unfold readInstruction
  dsimp only
  split
  · exact haside
  · exact hfault _

end

/-! ### Start tags among the markup -/

/-- Whether markup is a start tag. -/
def Markup.isOpenTag : Markup → Bool
  | .openTag .. => true
  | _ => false

/-- Only what is read as a start tag is told as one. -/
theorem readTag_of_openTag {names : List (List Char)} {offset : Nat} {cs : List Char}
    (h : (readTag names offset cs).markup.isOpenTag = true) :
    readTag names offset cs = readStartTag names offset cs := by
  have other : ∀ {markup : Markup}, markup.isOpenTag = false → markup.isOpenTag ≠ true :=
    fun hother => by simp [hother]
  unfold readTag at h ⊢
  split at h
  · cases h
  · exact absurd h (other (readDeclaration_told (P := fun m => m.isOpenTag = false) rfl
      (fun _ => rfl) (fun _ => rfl) _ _ _))
  · exact absurd h (other (readEndTag_told (P := fun m => m.isOpenTag = false) (fun _ => rfl)
      (fun _ => rfl) _ _ _))
  · exact absurd h (other (readInstruction_told (P := fun m => m.isOpenTag = false) rfl
      (fun _ => rfl) _ _ _))
  · rfl

/-- A start tag is reported with the offset behind what is taken of it, and the reader goes on. -/
theorem readTag_openTag {names : List (List Char)} {offset : Nat} {cs : List Char}
    (h : (readTag names offset cs).markup.isOpenTag = true) :
    (readTag names offset cs).reported = offset + byteSize (tagText cs) ∧
      (readTag names offset cs).remaining ≠ none := by
  obtain ⟨content, nameLength, closed, openNames, hread⟩ := readStartTag_eq names offset cs
  rw [readTag_of_openTag h, hread]
  exact ⟨rfl, nofun⟩

/-! ### Text between tags -/

/-- To leave out what stands in front of a text and then to read up to a character that is not left
out is to read up to it and then to leave out. -/
theorem takeWhile_stripStart {p q : Char → Bool} (h : ∀ c, p c = true → q c = true)
    (cs : List Char) : (cs.dropWhile p).takeWhile q = stripStart p (cs.takeWhile q) := by
  induction cs with
  | nil => rfl
  | cons c cs ih =>
    by_cases hp : p c = true
    · rw [List.dropWhile_cons_of_pos hp, ih, List.takeWhile_cons_of_pos (h c hp), stripStart,
        stripStart, List.dropWhile_cons_of_pos hp]
    · by_cases hq : q c = true
      · rw [List.dropWhile_cons_of_neg hp, List.takeWhile_cons_of_pos hq, stripStart,
          List.dropWhile_cons_of_neg hp]
      · rw [List.dropWhile_cons_of_neg hp, List.takeWhile_cons_of_neg hq]
        rfl

/-- The text told is what stands before the next `<`, without the blanks at both its ends; none is
told where nothing but blanks stands there. -/
theorem readText_told (offset : Nat) (cs : List Char) :
    (readText offset cs).1.map Prod.fst =
      if strip isSpace (cs.takeWhile (· ≠ '<')) = [] then []
      else [.text (strip isSpace (cs.takeWhile (· ≠ '<')))] := by
  have hraw := takeWhile_stripStart (p := isSpace) (q := (· ≠ '<'))
    (fun c hc => decide_eq_true fun he => by simp [he, isSpace] at hc) cs
  have told : ∀ reported : Nat,
      (if (stripStart isSpace (cs.takeWhile (· ≠ '<'))).isEmpty then []
        else [(Markup.text (strip isSpace (cs.takeWhile (· ≠ '<'))), reported)]).map Prod.fst =
      if strip isSpace (cs.takeWhile (· ≠ '<')) = [] then []
      else [.text (strip isSpace (cs.takeWhile (· ≠ '<')))] := fun reported => by
    simp only [strip_eq_nil_iff, List.isEmpty_iff]
    split
    · rfl
    · rfl
  unfold readText
  dsimp only
  rw [hraw]
  split
  · exact told _
  · exact told _

/-- A text among the markup is not empty, and neither of its ends is blank. -/
def Markup.Trimmed : Markup → Prop
  | .text raw => raw ≠ [] ∧ Text.Trimmed isSpace raw
  | _ => True

theorem readText_trimmed {offset : Nat} {cs : List Char} {piece : Markup × Nat}
    (h : piece ∈ (readText offset cs).1) : piece.1.Trimmed := by
  have htold := List.mem_map_of_mem (f := Prod.fst) h
  rw [readText_told] at htold
  split at htold
  · cases htold
  · next hne =>
    rw [List.mem_singleton.1 htold]
    exact ⟨hne, trimmed_strip _ _⟩

/-- No tag is told as a text. -/
theorem readTag_trimmed (names : List (List Char)) (offset : Nat) (cs : List Char) :
    (readTag names offset cs).markup.Trimmed := by
  unfold readTag
  split
  · trivial
  · exact readDeclaration_told trivial (fun _ => trivial) (fun _ => trivial) _ _ _
  · exact readEndTag_told (fun _ => trivial) (fun _ => trivial) _ _ _
  · exact readInstruction_told trivial (fun _ => trivial) _ _ _
  · obtain ⟨content, nameLength, closed, openNames, hread⟩ := readStartTag_eq names offset cs
    rw [hread]
    trivial

/-- A text is told with the offset of the `<` behind it. -/
theorem readText_some {offset : Nat} {cs inside : List Char} {texts : List (Markup × Nat)}
    {stop : Nat} (h : readText offset cs = (texts, stop, some inside)) :
    ∃ skipped, cs = skipped ++ '<' :: inside ∧ stop = offset + byteSize skipped + 1 ∧
      ∀ piece ∈ texts, piece.1.isOpenTag = false ∧ piece.2 = offset + byteSize skipped := by
  unfold readText at h
  dsimp only at h
  split at h
  · cases h
  · next c rest hrest =>
    have hc : c = '<' := by
      have hhead := List.head?_dropWhile_not (· ≠ '<') (cs.dropWhile isSpace)
      rw [hrest] at hhead
      simpa using hhead
    subst hc
    cases h
    refine ⟨cs.takeWhile isSpace ++ (cs.dropWhile isSpace).takeWhile (· ≠ '<'), ?_, ?_, ?_⟩
    · rw [List.append_assoc, ← hrest, List.takeWhile_append_dropWhile,
        List.takeWhile_append_dropWhile]
    · rw [byteSize_append, Nat.add_assoc offset]
    · intro piece hpiece
      split at hpiece
      · cases hpiece
      · rw [List.mem_singleton.1 hpiece, byteSize_append, ← Nat.add_assoc]
        exact ⟨rfl, rfl⟩

/-- Text is no start tag. -/
theorem readText_not_openTag {offset : Nat} {cs : List Char} {piece : Markup × Nat}
    (h : piece ∈ (readText offset cs).1) : piece.1.isOpenTag = false := by
  have htold := List.mem_map_of_mem (f := Prod.fst) h
  rw [readText_told] at htold
  split at htold
  · cases htold
  · rw [List.mem_singleton.1 htold]
    rfl

/-! ### The states of a reader -/

/-- What a reader of a source has told when it has this left to read. -/
inductive ReadTo (source : List Char) : List (Markup × Nat) → Remaining → Prop where
  | start : ReadTo source [] ⟨[], 0, source⟩
  | tag {told texts : List (Markup × Nat)} {left left' : Remaining} {stop : Nat}
    {inside : List Char} : ReadTo source told left →
    readText left.offset left.rest = (texts, stop, some inside) →
    (readTag left.openNames stop inside).remaining = some left' →
    ReadTo source (told ++ texts ++ [((readTag left.openNames stop inside).markup,
      (readTag left.openNames stop inside).reported)]) left'

theorem markupFrom_eq_of_none {names : List (List Char)} {offset stop : Nat} {cs : List Char}
    {texts : List (Markup × Nat)} (h : readText offset cs = (texts, stop, none)) :
    markupFrom names offset cs = texts ++ [(.endOfInput, stop)] := by
  unfold markupFrom
  split
  · next h' =>
    rw [h] at h'
    cases h'
    rfl
  · next h' =>
    rw [h] at h'
    cases h'

theorem markupFrom_eq_of_some {names : List (List Char)} {offset stop : Nat} {cs inside : List Char}
    {texts : List (Markup × Nat)} (h : readText offset cs = (texts, stop, some inside)) :
    markupFrom names offset cs =
      texts ++ ((readTag names stop inside).markup, (readTag names stop inside).reported) ::
        ((readTag names stop inside).remaining.elim []
          fun left => markupFrom left.openNames left.offset left.rest) := by
  rw [markupFrom]
  split
  · next h' =>
    rw [h] at h'
    cases h'
  · next h' =>
    rw [h] at h'
    cases h'
    split
    · next hread => rw [hread]; rfl
    · next hread => rw [hread]; rfl

/-- Every text among the markup is told without blanks at its ends. -/
theorem markupFrom_trimmed (names : List (List Char)) (offset : Nat) (cs : List Char) :
    ∀ piece ∈ markupFrom names offset cs, piece.1.Trimmed := by
  have texts_trimmed : ∀ {offset : Nat} {cs : List Char} {texts : List (Markup × Nat)}
      {stop : Nat} {inside? : Option (List Char)}, readText offset cs = (texts, stop, inside?) →
      ∀ piece ∈ texts, piece.1.Trimmed := by
    intro offset cs texts stop inside? ht piece hpiece
    exact readText_trimmed (by rw [ht]; exact hpiece)
  induction names, offset, cs using markupFrom.induct with
  | case1 names offset cs texts stop ht =>
    rw [markupFrom_eq_of_none ht]
    exact List.forall_mem_append.2 ⟨texts_trimmed ht, List.forall_mem_singleton.2 trivial⟩
  | case2 names offset cs texts stop inside ht markup reported hr =>
    have htag := readTag_trimmed names stop inside
    rw [hr] at htag
    rw [markupFrom_eq_of_some ht, hr, Option.elim_none]
    exact List.forall_mem_append.2 ⟨texts_trimmed ht, List.forall_mem_singleton.2 htag⟩
  | case3 names offset cs texts stop inside ht markup reported left hr ih =>
    have htag := readTag_trimmed names stop inside
    rw [hr] at htag
    rw [markupFrom_eq_of_some ht, hr, Option.elim_some]
    exact List.forall_mem_append.2 ⟨texts_trimmed ht, List.forall_mem_cons.2 ⟨htag, ih⟩⟩

theorem markupOf_trimmed (source : List Char) : ∀ piece ∈ markupOf source, piece.1.Trimmed :=
  markupFrom_trimmed [] 0 (withoutMark source)

/-- Behind what is not among the first of these, it is found. -/
theorem found_behind {α : Type} {x : α} {quiet xs before after : List α} (hquiet : x ∉ quiet)
    (h : quiet ++ xs = before ++ x :: after) :
    ∃ later, before = quiet ++ later ∧ xs = later ++ x :: after := by
  rcases List.append_eq_append_iff.1 h with ⟨later, hbefore, hxs⟩ | ⟨found, hfound, hxs⟩
  · exact ⟨later, hbefore, hxs⟩
  · cases found with
    | nil => exact ⟨[], by rw [hfound, List.append_nil, List.append_nil], hxs.symm⟩
    | cons e found =>
      cases hxs
      refine absurd ?_ hquiet
      rw [hfound]
      exact List.mem_append_right _ List.mem_cons_self

/-- Every start tag among the markup was told by a reader that had come to it. -/
theorem exists_readTo_of_openTag {source : List Char} {piece : Markup × Nat}
    (htag : piece.1.isOpenTag = true) (earlier : List (Markup × Nat))
    {later told : List (Markup × Nat)} {left : Remaining} (hread : ReadTo source told left)
    (h : markupFrom left.openNames left.offset left.rest = earlier ++ piece :: later) :
    ∃ before left' texts stop inside, ReadTo source before left' ∧
      told ++ earlier = before ++ texts ∧
      readText left'.offset left'.rest = (texts, stop, some inside) ∧
      (readTag left'.openNames stop inside).markup = piece.1 ∧
      (readTag left'.openNames stop inside).reported = piece.2 := by
  -- on the pieces before the start tag: one tag read leaves fewer of them
  induction hn : earlier.length using Nat.strongRecOn generalizing earlier told left with
  | ind n ih =>
    rcases hx : readText left.offset left.rest with ⟨texts, stop, inside?⟩
    have htexts : piece ∉ texts := fun hmem => by
      have htold : piece ∈ (readText left.offset left.rest).1 := by rwa [hx]
      have htext := readText_not_openTag htold
      rw [htag] at htext
      cases htext
    cases inside? with
    | none =>
      rw [markupFrom_eq_of_none hx] at h
      obtain ⟨mid, -, hmid⟩ := found_behind htexts h
      cases mid with
      | nil =>
        cases hmid
        cases htag
      | cons e mid => simp at hmid
    | some inside =>
      rw [markupFrom_eq_of_some hx] at h
      obtain ⟨mid, rfl, hmid⟩ := found_behind htexts h
      cases mid with
      | nil =>
        obtain ⟨hpiece, -⟩ := List.cons.inj hmid
        exact ⟨told, left, texts, stop, inside, hread, by rw [List.append_nil], hx,
          congrArg Prod.fst hpiece, congrArg Prod.snd hpiece⟩
      | cons e mid =>
        obtain ⟨rfl, hrest⟩ := List.cons.inj hmid
        cases hremaining : (readTag left.openNames stop inside).remaining with
        | none =>
          rw [hremaining] at hrest
          simp at hrest
        | some left' =>
          rw [hremaining] at hrest
          have hread' := hread.tag hx hremaining
          obtain ⟨before, left'', texts', stop', inside', hbefore, htold, hfound⟩ :=
            ih mid.length (by rw [← hn]; simp; omega) mid hread' hrest rfl
          refine ⟨before, left'', texts', stop', inside', hbefore, ?_, hfound⟩
          rw [← htold, List.append_assoc, List.append_assoc]
          rfl

end LogConfig.Document
