import LogConfig.Proofs.PropertyFile.Escaping

/-
  A list of entries has many renderings as a property file: separators, margins, line ends,
  comments and broken lines are up to who writes it. `Rendering` allows them all, and
  `parse_rendering` shows that the parser gives the entries back from every one of them.

  The parser works in passes, and so do the lemmas: a text into physical lines (`lines_line`),
  these into a logical one (`joinContinued_broken`), and that into key and value
  (`entry_logical`).
-/

namespace LogConfig.PropertyFile

/-! ## Renderings -/

/-- Blanks within a line. -/
def Margin (cs : List Char) : Prop := ∀ c ∈ cs, Text.isBlank c = true ∧ c ≠ '\n' ∧ c ≠ '\r'

/-- What ends a line: a line feed with an optional carriage return, or the end of the text. -/
inductive LineEnd : List Char → List Char → Prop where
  | feed (rest : List Char) : LineEnd ['\n'] rest
  | returnFeed (rest : List Char) : LineEnd ['\r', '\n'] rest
  | endOfText : LineEnd [] []

/-- What may stand between a key and a value: `=` or `:` with any blanks around it, or blanks
alone if there is a key before them. -/
inductive Separator (key : List Char) : List Char → Prop where
  | mark {before after : List Char} {c : Char} :
      Margin before → c = '=' ∨ c = ':' → Margin after → Separator key (before ++ c :: after)
  | blanks {gap : List Char} : key ≠ [] → Margin gap → gap ≠ [] → Separator key gap

/-- `Broken before text cs`: `cs` is the text of an entry broken over lines, where `before` is
the part of the entry before it. A break is a backslash, a line end and a margin. It does not
stand right after an odd number of backslashes, and no blank follows it. -/
inductive Broken : List Char → List Char → List Char → Prop where
  | done (before : List Char) : Broken before [] []
  | char {before text cs : List Char} (c : Char) :
      Broken (before ++ [c]) text cs → Broken before (c :: text) (c :: cs)
  | newline {before text cs feed margin : List Char} :
      backslashRun before % 2 = 0 → (∀ c ∈ text.head?, Text.isBlank c = false) →
      feed = ['\n'] ∨ feed = ['\r', '\n'] → Margin margin → Broken before text cs →
      Broken before text ('\\' :: feed ++ margin ++ cs)

/-- An entry on one line: key, separator and value. -/
def logicalLine (key sep value : List Char) : List Char := written key ++ sep ++ written value

/-- The texts that a list of entries is rendered as. -/
inductive Rendering : List (String × String) → List Char → Prop where
  | nil : Rendering [] []
  | blank {entries : List (String × String)} {margin feed rest : List Char} :
      Margin margin → LineEnd feed rest → Rendering entries rest →
      Rendering entries (margin ++ feed ++ rest)
  | comment {entries : List (String × String)} {margin comment feed rest : List Char} {c : Char} :
      Margin margin → c = '#' ∨ c = '!' → '\n' ∉ comment → LineEnd feed rest →
      Rendering entries rest → Rendering entries (margin ++ c :: comment ++ feed ++ rest)
  | entry {entries : List (String × String)} {key value : String}
      {margin sep cs feed rest : List Char} :
      Margin margin → Separator key.toList sep →
      Broken [] (logicalLine key.toList sep value.toList) cs → LineEnd feed rest →
      Rendering entries rest →
      Rendering ((key, value) :: entries) (margin ++ cs ++ feed ++ rest)

/-- The text before a break stays as it is. -/
theorem Broken.append {before more cs : List Char} (text : List Char)
    (h : Broken (before ++ text) more cs) : Broken before (text ++ more) (text ++ cs) := by
  induction text generalizing before with
  | nil => simpa using h
  | cons c text ih => exact .char c (ih (by simpa using h))

theorem Broken.unbroken (before text : List Char) : Broken before text text := by
  simpa using Broken.append text (.done (before ++ text))

theorem margin_nil : Margin [] := by simp [Margin]

/-- Whatever its entries are, a property file can be written. -/
theorem exists_rendering (entries : List (String × String)) : ∃ cs, Rendering entries cs := by
  induction entries with
  | nil => exact ⟨[], .nil⟩
  | cons e entries ih =>
    obtain ⟨rest, h⟩ := ih
    have sep : Separator e.1.toList ([] ++ '=' :: []) := .mark margin_nil (.inl rfl) margin_nil
    exact ⟨_, .entry margin_nil sep (.unbroken [] _) (.feed rest) h⟩

/-! ## Physical lines

The first line of a text is `(lines cs).headD []`, and `(lines cs).tail` are those after it; a
text may have no line at all, and then both are empty.
-/

theorem lines_cons {c : Char} (cs : List Char) (hn : c ≠ '\n')
    (hr : c = '\r' → cs.head? ≠ some '\n') :
    lines (c :: cs) = (c :: (lines cs).headD []) :: (lines cs).tail := by
  rw [lines]
  · cases lines cs with
    | nil => rfl
    | cons line more => rfl
  · exact hn
  · intro rest hc hcs
    exact hr hc (by simp [hcs])

/-- Text before the end of its line belongs to the first line. -/
theorem lines_append {cs : List Char} (rest : List Char)
    (h : ∀ c ∈ cs, c ≠ '\n' ∧ c ≠ '\r') :
    (lines (cs ++ rest)).headD [] = cs ++ (lines rest).headD [] ∧
      (lines (cs ++ rest)).tail = (lines rest).tail := by
  induction cs with
  | nil => simp
  | cons c cs ih =>
    obtain ⟨hn, hr⟩ := h c List.mem_cons_self
    obtain ⟨ihead, itail⟩ := ih fun d hd => h d (List.mem_cons_of_mem c hd)
    rw [List.cons_append, lines_cons _ hn (fun hc => absurd hc hr)]
    exact ⟨congrArg (c :: ·) ihead, itail⟩

theorem lines_feed {feed rest : List Char} (h : LineEnd feed rest) :
    (lines (feed ++ rest)).headD [] = [] ∧ (lines (feed ++ rest)).tail = lines rest := by
  cases h <;> simp [lines]

/-- Whatever a line holds, the lines after it are those of the text after its end. -/
theorem lines_tail {cs feed rest : List Char} (hcs : '\n' ∉ cs) (h : LineEnd feed rest) :
    (lines (cs ++ (feed ++ rest))).tail = lines rest := by
  induction cs with
  | nil => exact (lines_feed h).2
  | cons c cs ih =>
    have hn : c ≠ '\n' := fun hc => hcs (hc ▸ List.mem_cons_self)
    have hrest : '\n' ∉ cs := fun hm => hcs (List.mem_cons_of_mem c hm)
    by_cases hr : c = '\r' ∧ (cs ++ (feed ++ rest)).head? = some '\n'
    · -- the carriage return belongs to the line feed after it
      obtain ⟨rfl, hfeed⟩ := hr
      have hnil : cs = [] := by
        cases cs with
        | nil => rfl
        | cons d cs =>
          have hd : d = '\n' := by simpa using hfeed
          exact absurd (hd ▸ List.mem_cons_self) hrest
      subst hnil
      cases h with
      | feed => simp [lines]
      | returnFeed => simp at hfeed
      | endOfText => simp at hfeed
    · rw [List.cons_append, lines_cons _ hn (fun hc hf => hr ⟨hc, hf⟩)]
      exact ih hrest

/-! ## Logical lines -/

theorem logicalLines_skip {ls : List (List Char)}
    (h : isSkipped (Text.stripStart Text.isBlank (ls.headD [])) = true) :
    logicalLines ls = logicalLines ls.tail := by
  cases ls with
  | nil => rfl
  | cons line rest =>
    rw [logicalLines]
    simpa using fun hs => absurd h (by simpa using hs)

theorem logicalLines_take {ls : List (List Char)} {start : List Char}
    (hs : Text.stripStart Text.isBlank (ls.headD []) = start) (h : isSkipped start = false) :
    logicalLines ls =
      (joinContinued start ls.tail).1 :: logicalLines (joinContinued start ls.tail).2 := by
  subst hs
  cases ls with
  | nil => simp [Text.stripStart, isSkipped] at h
  | cons line rest =>
    have hline : isSkipped (Text.stripStart Text.isBlank line) = false := h
    rw [logicalLines]
    simp [hline]

theorem joinContinued_stop {line : List Char} (rest : List (List Char))
    (h : backslashRun line % 2 = 0) : joinContinued line rest = (line, rest) := by
  have hc : continues line = false := by
    rw [continues_eq]
    simp [h]
  cases rest <;> simp [joinContinued, hc]

/-- A break joins what is before it to the next line without its margin. -/
theorem joinContinued_break {line : List Char} (rest : List (List Char))
    (h : backslashRun line % 2 = 0) :
    joinContinued (line ++ ['\\']) rest =
      joinContinued (line ++ Text.stripStart Text.isBlank (rest.headD [])) rest.tail := by
  have hc : continues (line ++ ['\\']) = true := by
    rw [continues_eq, backslashRun_backslash]
    simp
    omega
  cases rest with
  | nil =>
    have hstop : joinContinued line [] = (line, []) := joinContinued_stop [] h
    simp [joinContinued.eq_1, hc, Text.stripStart] at hstop ⊢
    exact fun hline => (hstop hline).symm
  | cons next rest => simp [joinContinued, hc]

theorem stripStart_margin {margin : List Char} (cs : List Char) (h : Margin margin) :
    Text.stripStart Text.isBlank (margin ++ cs) = Text.stripStart Text.isBlank cs := by
  have hall : ∀ c ∈ margin, Text.isBlank c = true := fun c hc => (h c hc).1
  simp [Text.stripStart, List.dropWhile_append_of_pos hall]

/-- The removal of leading blanks stops at a text that begins with none. -/
theorem stripStart_append {cs : List Char} (before : List Char)
    (h : Text.stripStart Text.isBlank cs = cs) :
    Text.stripStart Text.isBlank (before ++ cs) = Text.stripStart Text.isBlank before ++ cs := by
  induction before with
  | nil => simpa [Text.stripStart] using h
  | cons c before ih =>
    by_cases hc : Text.isBlank c
    · simpa [Text.stripStart, hc] using ih
    · simp [Text.stripStart, hc]

theorem stripStart_of_head {cs : List Char} (h : ∀ c ∈ cs.head?, Text.isBlank c = false) :
    Text.stripStart Text.isBlank cs = cs := by
  cases cs with
  | nil => rfl
  | cons c cs => simp [Text.stripStart, h c rfl]

/-- Blanks before a text do not matter for the backslashes at its end. -/
theorem backslashRun_stripStart (cs : List Char) :
    backslashRun (Text.stripStart Text.isBlank cs) = backslashRun cs := by
  induction cs with
  | nil => rfl
  | cons c cs ih =>
    by_cases hc : Text.isBlank c
    · have hb : c ≠ '\\' := by
        rintro rfl
        exact absurd hc (by decide)
      have hrun : backslashRun (c :: cs) = backslashRun cs := by
        simp only [backslashRun, List.reverse_cons, List.takeWhile_append]
        split
        · simp [*]
        · rfl
      rw [hrun, ← ih]
      simp [Text.stripStart, hc]
    · simp [Text.stripStart, hc]

/-- The first line of a broken entry begins with no blank if the entry does not. -/
theorem first_head {before text cs feed rest : List Char} (h : Broken before text cs)
    (hf : LineEnd feed rest) (ht : ∀ c ∈ text, c ≠ '\n' ∧ c ≠ '\r')
    (hblank : ∀ c ∈ text.head?, Text.isBlank c = false) :
    ∀ c ∈ ((lines (cs ++ (feed ++ rest))).headD []).head?, Text.isBlank c = false := by
  cases h with
  | done =>
    rw [List.nil_append, (lines_feed hf).1]
    simp
  | char c h =>
    obtain ⟨hn, hr⟩ := ht c List.mem_cons_self
    rw [List.cons_append, lines_cons _ hn (fun hc => absurd hc hr)]
    simpa using hblank
  | newline =>
    rw [List.append_assoc, List.append_assoc, List.cons_append,
      lines_cons _ (by decide) (fun hc => absurd hc (by decide))]
    simp [isBlank_backslash]

/-- The lines of a broken entry are joined to the entry. -/
theorem joinContinued_broken {before text cs feed rest : List Char} (h : Broken before text cs)
    (hf : LineEnd feed rest) (ht : ∀ c ∈ text, c ≠ '\n' ∧ c ≠ '\r')
    (heven : backslashRun (before ++ text) % 2 = 0) :
    joinContinued
        (Text.stripStart Text.isBlank (before ++ (lines (cs ++ (feed ++ rest))).headD []))
        (lines (cs ++ (feed ++ rest))).tail =
      (Text.stripStart Text.isBlank (before ++ text), lines rest) := by
  induction h with
  | done before =>
    obtain ⟨hhead, htail⟩ := lines_feed hf
    rw [List.nil_append, hhead, htail]
    exact joinContinued_stop _ (by rw [backslashRun_stripStart]; exact heven)
  | char c h ih =>
    obtain ⟨hn, hr⟩ := ht c List.mem_cons_self
    rw [List.cons_append, lines_cons _ hn (fun hc => absurd hc hr)]
    simpa using ih (fun d hd => ht d (List.mem_cons_of_mem c hd)) (by simpa using heven)
  | @newline before text cs feed' margin hrun hblank hfeed hmargin h ih =>
    have hfeed' : LineEnd feed' (margin ++ (cs ++ (feed ++ rest))) := by
      obtain rfl | rfl := hfeed
      · exact .feed _
      · exact .returnFeed _
    obtain ⟨hhead, htail⟩ := lines_feed hfeed'
    obtain ⟨mhead, mtail⟩ :=
      lines_append (cs ++ (feed ++ rest)) fun c hc => (hmargin c hc).2
    have hfirst := stripStart_of_head (first_head h hf ht hblank)
    have hline : lines ('\\' :: feed' ++ margin ++ cs ++ (feed ++ rest)) =
        ['\\'] :: lines (margin ++ (cs ++ (feed ++ rest))) := by
      simp only [List.cons_append, List.append_assoc]
      rw [lines_cons _ (by decide) (fun hc => absurd hc (by decide)), hhead, htail]
    rw [hline, List.headD_cons, List.tail_cons,
      stripStart_append before (show Text.stripStart Text.isBlank ['\\'] = ['\\'] by decide),
      joinContinued_break _ (by rw [backslashRun_stripStart]; exact hrun), mhead, mtail,
      stripStart_margin _ hmargin, hfirst, ← stripStart_append before hfirst]
    exact ih ht heven

/-- An entry is not skipped because of how it is broken. -/
theorem isSkipped_broken {before text cs : List Char} (feed rest : List Char)
    (h : Broken before text cs)
    (ht : ∀ c ∈ text, c ≠ '\n' ∧ c ≠ '\r')
    (hs : isSkipped (Text.stripStart Text.isBlank text) = false) :
    isSkipped (Text.stripStart Text.isBlank ((lines (cs ++ (feed ++ rest))).headD [])) =
      false := by
  induction h with
  | done => simp [Text.stripStart, isSkipped] at hs
  | char c h ih =>
    obtain ⟨hn, hr⟩ := ht c List.mem_cons_self
    rw [List.cons_append, lines_cons _ hn (fun hc => absurd hc hr), List.headD_cons]
    by_cases hc : Text.isBlank c
    · simp only [Text.stripStart, List.dropWhile_cons, hc, if_true] at hs ⊢
      exact ih (fun d hd => ht d (List.mem_cons_of_mem c hd)) hs
    · simpa [Text.stripStart, hc, isSkipped] using hs
  | newline =>
    rw [List.append_assoc, List.append_assoc, List.cons_append,
      lines_cons _ (by decide) (fun hc => absurd hc (by decide)), List.headD_cons]
    simp [Text.stripStart, isBlank_backslash, isSkipped]

/-! ## Entries -/

theorem afterGap_mark {gap : List Char} {c : Char} (after : List Char) (h : Margin gap)
    (hc : c = '=' ∨ c = ':') : afterGap (gap ++ c :: after) = after := by
  have hblank : Text.isBlank c = false := by
    obtain rfl | rfl := hc <;> decide
  have hstrip : Text.stripStart Text.isBlank (gap ++ c :: after) = c :: after := by
    rw [stripStart_margin _ h]
    simp [Text.stripStart, hblank]
  rw [afterGap, hstrip]
  obtain rfl | rfl := hc <;> rfl

theorem afterGap_written {gap : List Char} (h : Margin gap) (value : List Char) :
    afterGap (gap ++ written value) = written value := by
  rw [afterGap, stripStart_margin _ h, stripStart_written]
  split
  · rename_i hw
    obtain hd | hd := written_head hw <;> exact absurd hd (by decide)
  · rename_i hw
    obtain hd | hd := written_head hw <;> exact absurd hd (by decide)
  · rfl

theorem splitEntry_blank {c : Char} (rest : List Char) (h : Text.isBlank c = true) :
    splitEntry (c :: rest) = ([], afterGap (c :: rest)) := by
  have hne : c ≠ '\\' ∧ c ≠ '=' ∧ c ≠ ':' := by
    refine ⟨?_, ?_, ?_⟩ <;> rintro rfl <;> exact absurd h (by decide)
  simp [splitEntry, hne, h]

/-- A separator ends the key, and the value follows it after blanks. -/
theorem splitEntry_separator {key sep : List Char} (h : Separator key sep) (value : List Char) :
    (splitEntry (sep ++ written value)).1 = [] ∧
      Text.stripStart Text.isBlank (splitEntry (sep ++ written value)).2 = written value := by
  cases h with
  | @mark before after c hbefore hc hafter =>
    rw [List.append_assoc, List.cons_append]
    have hvalue : Text.stripStart Text.isBlank (after ++ written value) = written value := by
      rw [stripStart_margin _ hafter, stripStart_written]
    cases before with
    | nil =>
      have hsplit : splitEntry (c :: (after ++ written value)) = ([], after ++ written value) := by
        obtain rfl | rfl := hc <;> simp [splitEntry]
      rw [List.nil_append, hsplit]
      exact ⟨rfl, hvalue⟩
    | cons b before =>
      have hgap := afterGap_mark (after ++ written value) hbefore hc
      rw [List.cons_append] at hgap ⊢
      rw [splitEntry_blank _ (hbefore b List.mem_cons_self).1, hgap]
      exact ⟨rfl, hvalue⟩
  | blanks hkey hgap hne =>
    obtain ⟨b, gap, rfl⟩ := List.exists_cons_of_ne_nil hne
    have hvalue := afterGap_written hgap value
    rw [List.cons_append] at hvalue ⊢
    rw [splitEntry_blank _ (hgap b List.mem_cons_self).1, hvalue]
    exact ⟨rfl, stripStart_written value⟩

theorem entry_logicalLine {key sep value : List Char} (h : Separator key sep) :
    entry (logicalLine key sep value) = (String.ofList key, String.ofList value) := by
  obtain ⟨hkey, hvalue⟩ := splitEntry_separator h value
  rw [entry, logicalLine, List.append_assoc, splitEntry_written, hkey, hvalue, List.append_nil,
    unescape_written, unescape_written]

/-- Without its indentation an entry is still one, though blanks of its separator may be part of
the indentation when there is no key. -/
theorem stripStart_logicalLine {key sep : List Char} (h : Separator key sep)
    (value : List Char) :
    ∃ sep', Separator key sep' ∧
      Text.stripStart Text.isBlank (logicalLine key sep value) = logicalLine key sep' value ∧
      isSkipped (logicalLine key sep' value) = false := by
  cases hw : written key with
  | cons d more =>
    have hd : Text.isBlank d = false ∧ d ≠ '#' ∧ d ≠ '!' := by
      obtain rfl | hs := written_head hw
      · decide
      · obtain ⟨-, -, -, hh, hx, hb⟩ := not_special_iff.1 hs
        exact ⟨hb, hh, hx⟩
    refine ⟨sep, h, ?_, ?_⟩
    · simp [logicalLine, hw, Text.stripStart, hd.1]
    · simp [logicalLine, hw, isSkipped, hd.2]
  | nil =>
    cases h with
    | @mark before after c hbefore hc hafter =>
      refine ⟨[] ++ c :: after, .mark margin_nil hc hafter, ?_, ?_⟩
      · simp only [logicalLine, hw, List.nil_append, List.append_assoc]
        rw [stripStart_margin _ hbefore]
        obtain rfl | rfl := hc <;>
          simp [Text.stripStart, show Text.isBlank '=' = false by decide,
            show Text.isBlank ':' = false by decide]
      · obtain rfl | rfl := hc <;> simp [logicalLine, hw, isSkipped]
    | blanks hkey =>
      obtain ⟨c, key, rfl⟩ := List.exists_cons_of_ne_nil hkey
      obtain ⟨hc, -⟩ | ⟨d, hd, -⟩ := escape_cases c <;> simp_all

/-- Neither line feeds nor carriage returns stand in an entry. -/
theorem logicalLine_on_one_line {key sep : List Char} (h : Separator key sep)
    (value : List Char) :
    ∀ c ∈ logicalLine key sep value, c ≠ '\n' ∧ c ≠ '\r' := by
  have hsep : ∀ c ∈ sep, c ≠ '\n' ∧ c ≠ '\r' := by
    cases h with
    | @mark before after d hbefore hd hafter =>
      intro c hc
      simp only [List.mem_append, List.mem_cons] at hc
      obtain hc | rfl | hc := hc
      · exact (hbefore c hc).2
      · obtain rfl | rfl := hd <;> decide
      · exact (hafter c hc).2
    | blanks _ hgap => exact fun c hc => (hgap c hc).2
  intro c hc
  simp only [logicalLine, List.mem_append] at hc
  obtain (hc | hc) | hc := hc
  · exact written_on_one_line key c hc
  · exact hsep c hc
  · exact written_on_one_line value c hc

/-- No entry ends in an open backslash. -/
theorem backslashRun_logicalLine {key sep value : List Char} (h : Separator key sep) :
    backslashRun (logicalLine key sep value) % 2 = 0 := by
  have hsep : sep ≠ [] ∧ '\\' ∉ sep := by
    have hmargin : ∀ {cs : List Char}, Margin cs → '\\' ∉ cs := by
      intro cs hcs hmem
      exact absurd (hcs _ hmem).1 (by decide)
    cases h with
    | @mark before after c hbefore hc hafter =>
      have hmark : '\\' ≠ c := by
        rintro rfl
        exact absurd hc (by decide)
      simp [hmargin hbefore, hmargin hafter, hmark]
    | blanks _ hgap hne => exact ⟨hne, hmargin hgap⟩
  refine backslashRun_written _ value ?_
  rw [backslashRun_plain _ hsep.1 hsep.2]

/-! ## Whole files -/

/-- The logical lines of a rendering are its entries, one for one. -/
theorem logicalLines_rendering {entries : List (String × String)} {cs : List Char}
    (h : Rendering entries cs) : (logicalLines (lines cs)).map entry = entries := by
  induction h with
  | nil => simp [lines, logicalLines]
  | @blank entries margin feed rest hmargin hfeed _ ih =>
    obtain ⟨fhead, ftail⟩ := lines_feed hfeed
    obtain ⟨mhead, mtail⟩ := lines_append (feed ++ rest) fun c hc => (hmargin c hc).2
    have hskip : isSkipped (Text.stripStart Text.isBlank
        ((lines (margin ++ (feed ++ rest))).headD [])) = true := by
      rw [mhead, fhead, stripStart_margin _ hmargin]
      rfl
    rw [List.append_assoc, logicalLines_skip hskip, mtail, ftail, ih]
  | @comment entries margin comment feed rest c hmargin hc hcomment hfeed _ ih =>
    have hplain : c ≠ '\n' ∧ c ≠ '\r' := by
      obtain rfl | rfl := hc <;> decide
    have hline := lines_cons (comment ++ (feed ++ rest)) hplain.1
      (fun h => absurd h hplain.2)
    obtain ⟨mhead, mtail⟩ :=
      lines_append (c :: (comment ++ (feed ++ rest))) fun c hc => (hmargin c hc).2
    have hskip : isSkipped (Text.stripStart Text.isBlank
        ((lines (margin ++ (c :: (comment ++ (feed ++ rest))))).headD [])) = true := by
      rw [mhead, hline, stripStart_margin _ hmargin]
      obtain rfl | rfl := hc <;>
        simp [Text.stripStart, isSkipped, show Text.isBlank '#' = false by decide,
          show Text.isBlank '!' = false by decide]
    simp only [List.append_assoc, List.cons_append]
    rw [logicalLines_skip hskip, mtail, hline, List.tail_cons, lines_tail hcomment hfeed, ih]
  | @entry entries key value margin sep cs feed rest hmargin hsep hbroken hfeed _ ih =>
    have hone := logicalLine_on_one_line hsep value.toList
    obtain ⟨sep', hsep', hstrip, hkept⟩ := stripStart_logicalLine hsep value.toList
    obtain ⟨mhead, mtail⟩ :=
      lines_append (cs ++ (feed ++ rest)) fun c hc => (hmargin c hc).2
    have hstart : Text.stripStart Text.isBlank
        ((lines (margin ++ (cs ++ (feed ++ rest)))).headD []) =
          Text.stripStart Text.isBlank ((lines (cs ++ (feed ++ rest))).headD []) := by
      rw [mhead, stripStart_margin _ hmargin]
    have hfirst := isSkipped_broken feed rest hbroken hone
      (by rw [hstrip]; exact hkept)
    have hjoin := joinContinued_broken hbroken hfeed hone
      (by rw [List.nil_append]; exact backslashRun_logicalLine hsep)
    rw [List.nil_append, List.nil_append, hstrip] at hjoin
    simp only [List.append_assoc]
    rw [logicalLines_take hstart hfirst, mtail, hjoin, List.map_cons, entry_logicalLine hsep', ih]
    simp

/-- Every rendering of a list of entries is parsed to that list. -/
theorem parse_rendering {entries : List (String × String)} {text : String}
    (h : Rendering entries text.toList) : parse text = entries :=
  logicalLines_rendering h

/-- A comment, a broken value that starts on the line after its separator, and an entry without a
key on a last line without end. -/
theorem parse_rendering_paths :
    Rendering [("root", "/a b"), ("", "\\")]
        "#paths\r\nroot :\\\n  /a\\ b\n =\\\\".toList ∧
      parse "#paths\r\nroot :\\\n  /a\\ b\n =\\\\" = [("root", "/a b"), ("", "\\")] := by
  have blanks : Margin [' '] ∧ Margin [' ', ' '] := by
    constructor <;> simp [Margin, show Text.isBlank ' ' = true by decide]
  have root : Separator "root".toList ([' '] ++ ':' :: []) :=
    .mark blanks.1 (.inr rfl) margin_nil
  have bare : Separator "".toList ([] ++ '=' :: []) := .mark margin_nil (.inl rfl) margin_nil
  have starts : ∀ c ∈ (written "/a b".toList).head?, Text.isBlank c = false := by
    rintro _ ⟨⟩
    decide
  have value : Broken "root :".toList (written "/a b".toList) "\\\n  /a\\ b".toList :=
    .newline (by decide) starts (.inl rfl) blanks.2 (.unbroken _ (written "/a b".toList))
  have last : Rendering [("", "\\")] " =\\\\".toList :=
    .entry blanks.1 bare (.unbroken [] _) .endOfText .nil
  have entries : Rendering [("root", "/a b"), ("", "\\")]
      "root :\\\n  /a\\ b\n =\\\\".toList :=
    .entry margin_nil root (.append "root :".toList value) (.feed _) last
  have whole : Rendering [("root", "/a b"), ("", "\\")]
      ([] ++ '#' :: "paths".toList ++ "\r\n".toList ++ "root :\\\n  /a\\ b\n =\\\\".toList) :=
    .comment margin_nil (.inl rfl) (by decide) (.returnFeed _) entries
  exact ⟨whole, parse_rendering whole⟩

end LogConfig.PropertyFile
