import LogConfig.PropertyFile

/-
  How keys and values are written in a property file. `escape` writes one character, `written` a
  text. What is written has three readers, and each has its law here: `splitEntry` passes over
  written text (`splitEntry_written`), the joining of lines sees no open backslash at its end
  (`backslashRun_written`), and `unescape` gives the text back (`unescape_written`).
-/

namespace LogConfig.PropertyFile

/-! ## Written text -/

/-- Whether a backslash goes before a character that has no letter of its own: a character that
separates, comments or escapes, and every blank. -/
def isSpecial (c : Char) : Bool :=
  c = '\\' || c = '=' || c = ':' || c = '#' || c = '!' || Text.isBlank c

/-- A character of a key or value, as written. -/
def escape (c : Char) : List Char :=
  if c = '\t' then ['\\', 't']
  else if c = '\n' then ['\\', 'n']
  else if c = '\r' then ['\\', 'r']
  else if c = '\x0c' then ['\\', 'f']
  else if isSpecial c then ['\\', c]
  else [c]

/-- A key or value, as written. -/
def written (cs : List Char) : List Char := cs.flatMap escape

@[simp] theorem written_nil : written [] = [] := rfl

@[simp] theorem written_cons (c : Char) (cs : List Char) :
    written (c :: cs) = escape c ++ written cs := by
  simp [written]

theorem isBlank_backslash : Text.isBlank '\\' = false := by decide

theorem not_special_iff {c : Char} :
    isSpecial c = false ↔
      c ≠ '\\' ∧ c ≠ '=' ∧ c ≠ ':' ∧ c ≠ '#' ∧ c ≠ '!' ∧ Text.isBlank c = false := by
  simp [isSpecial, and_assoc]

/-- A character is written as it is, or as a backslash and a character on the same line. -/
theorem escape_cases (c : Char) :
    (escape c = [c] ∧ isSpecial c = false) ∨
      ∃ d, escape c = ['\\', d] ∧ d ≠ '\n' ∧ d ≠ '\r' := by
  by_cases ht : c = '\t'
  · exact .inr ⟨'t', by simp [escape, ht], by decide, by decide⟩
  by_cases hn : c = '\n'
  · exact .inr ⟨'n', by simp [escape, hn], by decide, by decide⟩
  by_cases hr : c = '\r'
  · exact .inr ⟨'r', by simp [escape, hr], by decide, by decide⟩
  by_cases hf : c = '\x0c'
  · exact .inr ⟨'f', by simp [escape, hf], by decide, by decide⟩
  by_cases hs : isSpecial c
  · exact .inr ⟨c, by simp [escape, ht, hn, hr, hf, hs], hn, hr⟩
  · exact .inl ⟨by simp [escape, ht, hn, hr, hf, hs], by simpa using hs⟩

/-- No written text reaches over the end of its line. -/
theorem written_on_one_line (cs : List Char) : ∀ d ∈ written cs, d ≠ '\n' ∧ d ≠ '\r' := by
  induction cs with
  | nil => simp
  | cons c cs ih =>
    intro d hd
    rw [written_cons, List.mem_append] at hd
    rcases hd with hd | hd
    · obtain ⟨hc, hs⟩ | ⟨e, he, hn, hr⟩ := escape_cases c
      · have hdc : d = c := by simpa [hc] using hd
        have hb : Text.isBlank c = false := (not_special_iff.1 hs).2.2.2.2.2
        subst hdc
        constructor
        · rintro rfl
          exact absurd hb (by decide)
        · rintro rfl
          exact absurd hb (by decide)
      · have hde : d = '\\' ∨ d = e := by simpa [he] using hd
        rcases hde with rfl | rfl
        · exact ⟨by decide, by decide⟩
        · exact ⟨hn, hr⟩
    · exact ih d hd

/-- Written text begins with a backslash or with a character that is not special. -/
theorem written_head {cs : List Char} {d : Char} {rest : List Char}
    (h : written cs = d :: rest) : d = '\\' ∨ isSpecial d = false := by
  cases cs with
  | nil => simp at h
  | cons c cs =>
    rw [written_cons] at h
    obtain ⟨hc, hs⟩ | ⟨e, he, -⟩ := escape_cases c
    · have hdc : c = d := by
        rw [hc] at h
        simpa using (List.cons.inj h).1
      exact .inr (hdc ▸ hs)
    · rw [he] at h
      exact .inl (List.cons.inj h).1.symm

/-- Blanks are not part of what is written, so removing them leaves it whole. -/
theorem stripStart_written (cs : List Char) :
    Text.stripStart Text.isBlank (written cs) = written cs := by
  cases h : written cs with
  | nil => rfl
  | cons d rest =>
    have hd : Text.isBlank d = false := by
      obtain rfl | hs := written_head h
      · exact isBlank_backslash
      · exact (not_special_iff.1 hs).2.2.2.2.2
    simp [Text.stripStart, hd]

/-! ## Reading it back -/

theorem unescape_escaped {c : Char} (rest : List Char)
    (h : c ∉ ['t', 'n', 'r', 'f', 'u']) : unescape ('\\' :: c :: rest) = c :: unescape rest := by
  simp only [List.mem_cons, List.not_mem_nil, or_false, not_or] at h
  obtain ⟨ht, hn, hr, hf, hu⟩ := h
  rw [unescape] <;> assumption

theorem unescape_plain {c : Char} (rest : List Char) (h : c ≠ '\\') :
    unescape (c :: rest) = c :: unescape rest := by
  simp [unescape, h]

theorem unescape_escape (c : Char) (rest : List Char) :
    unescape (escape c ++ rest) = c :: unescape rest := by
  by_cases ht : c = '\t'
  · subst ht
    simp [escape, unescape]
  by_cases hn : c = '\n'
  · subst hn
    simp [escape, unescape]
  by_cases hr : c = '\r'
  · subst hr
    simp [escape, unescape]
  by_cases hf : c = '\x0c'
  · subst hf
    simp [escape, unescape]
  by_cases hs : isSpecial c
  · have hc : escape c = ['\\', c] := by simp [escape, ht, hn, hr, hf, hs]
    have hletter : c ∉ ['t', 'n', 'r', 'f', 'u'] := by
      intro hm
      simp only [List.mem_cons, List.not_mem_nil, or_false] at hm
      rcases hm with rfl | rfl | rfl | rfl | rfl <;> exact absurd hs (by decide)
    rw [hc]
    exact unescape_escaped rest hletter
  · have hc : escape c = [c] := by simp [escape, ht, hn, hr, hf, hs]
    have hb : c ≠ '\\' := (not_special_iff.1 (by simpa using hs)).1
    rw [hc]
    exact unescape_plain rest hb

theorem unescape_written (cs : List Char) : unescape (written cs) = cs := by
  induction cs with
  | nil => simp [unescape]
  | cons c cs ih => rw [written_cons, unescape_escape, ih]

theorem splitEntry_plain {c : Char} (rest : List Char) (h : isSpecial c = false) :
    splitEntry (c :: rest) = (c :: (splitEntry rest).1, (splitEntry rest).2) := by
  obtain ⟨hb, he, hc, -, -, hw⟩ := not_special_iff.1 h
  simp [splitEntry, hb, he, hc, hw]

theorem splitEntry_written (cs rest : List Char) :
    splitEntry (written cs ++ rest) =
      (written cs ++ (splitEntry rest).1, (splitEntry rest).2) := by
  induction cs with
  | nil => simp
  | cons c cs ih =>
    rw [written_cons, List.append_assoc]
    obtain ⟨hc, hs⟩ | ⟨d, hd, -⟩ := escape_cases c
    · rw [hc, List.singleton_append, splitEntry_plain _ hs, ih]
      rfl
    · rw [hd]
      simp [splitEntry, ih]

/-! ## Backslashes at the end -/

/-- How many backslashes a text ends in. -/
def backslashRun (cs : List Char) : Nat := (cs.reverse.takeWhile (· = '\\')).length

theorem continues_eq (cs : List Char) : continues cs = decide (backslashRun cs % 2 = 1) := rfl

@[simp] theorem backslashRun_nil : backslashRun [] = 0 := rfl

@[simp] theorem backslashRun_backslash (cs : List Char) :
    backslashRun (cs ++ ['\\']) = backslashRun cs + 1 := by
  simp [backslashRun]

theorem backslashRun_other {c : Char} (cs : List Char) (h : c ≠ '\\') :
    backslashRun (cs ++ [c]) = 0 := by
  simp [backslashRun, h]

theorem backslashRun_plain {cs : List Char} (before : List Char) (hne : cs ≠ [])
    (h : '\\' ∉ cs) : backslashRun (before ++ cs) = 0 := by
  rw [← List.dropLast_concat_getLast hne, ← List.append_assoc]
  refine backslashRun_other _ fun heq => h ?_
  rw [← heq]
  exact List.getLast_mem hne

/-- A written character leaves no backslash open. -/
theorem backslashRun_escape (cs : List Char) (c : Char) (h : backslashRun cs % 2 = 0) :
    backslashRun (cs ++ escape c) % 2 = 0 := by
  obtain ⟨hc, hs⟩ | ⟨d, hd, -⟩ := escape_cases c
  · rw [hc, backslashRun_other cs (not_special_iff.1 hs).1]
  · have hsplit : cs ++ escape c = (cs ++ ['\\']) ++ [d] := by simp [hd]
    rw [hsplit]
    by_cases hb : d = '\\'
    · rw [hb, backslashRun_backslash, backslashRun_backslash]
      omega
    · rw [backslashRun_other _ hb]

theorem backslashRun_written (before cs : List Char) (h : backslashRun before % 2 = 0) :
    backslashRun (before ++ written cs) % 2 = 0 := by
  induction cs generalizing before with
  | nil => simpa using h
  | cons c cs ih =>
    rw [written_cons, ← List.append_assoc]
    exact ih _ (backslashRun_escape before c h)

end LogConfig.PropertyFile
