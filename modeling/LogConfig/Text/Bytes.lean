/-
  Texts measured in bytes of their UTF-8 form. A text can be cut at a byte only where a character
  ends: `takeBytes?` and `dropBytes?` are nothing elsewhere.
-/

namespace LogConfig.Text

/-- Number of bytes of a text in UTF-8. -/
def byteSize : List Char → Nat
  | [] => 0
  | c :: cs => c.utf8Size + byteSize cs

/-- The characters in the first `n` bytes. -/
def takeBytes? : Nat → List Char → Option (List Char)
  | 0, _ => some []
  | _ + 1, [] => none
  | n + 1, c :: cs =>
    if c.utf8Size ≤ n + 1 then (takeBytes? (n + 1 - c.utf8Size) cs).map (c :: ·) else none

/-- The characters after the first `n` bytes. -/
def dropBytes? : Nat → List Char → Option (List Char)
  | 0, cs => some cs
  | _ + 1, [] => none
  | n + 1, c :: cs =>
    if c.utf8Size ≤ n + 1 then dropBytes? (n + 1 - c.utf8Size) cs else none

/-- The first byte of the UTF-8 form of a character, taken as the number of a character. -/
def leadingByte (c : Char) : Char :=
  let n := c.toNat
  if n < 0x80 then c
  else if n < 0x800 then Char.ofNat (0xC0 + n / 0x40)
  else if n < 0x10000 then Char.ofNat (0xE0 + n / 0x1000)
  else Char.ofNat (0xF0 + n / 0x40000)

@[simp] theorem byteSize_nil : byteSize [] = 0 := rfl

@[simp] theorem byteSize_cons (c : Char) (cs : List Char) :
    byteSize (c :: cs) = c.utf8Size + byteSize cs := rfl

@[simp] theorem byteSize_append (cs ds : List Char) :
    byteSize (cs ++ ds) = byteSize cs + byteSize ds := by
  induction cs with
  | nil => simp
  | cons c cs ih => simp [ih, Nat.add_assoc]

theorem dropBytes?_byteSize_append (cs ds : List Char) :
    dropBytes? (byteSize cs) (cs ++ ds) = some ds := by
  induction cs with
  | nil => rw [byteSize_nil, dropBytes?]; rfl
  | cons c cs ih =>
    have hpos := c.utf8Size_pos
    obtain ⟨n, hn⟩ : ∃ n, byteSize (c :: cs) = n + 1 := ⟨c.utf8Size + byteSize cs - 1, by
      rw [byteSize_cons]; omega⟩
    have hc : c.utf8Size + byteSize cs = n + 1 := by rw [← hn, byteSize_cons]
    rw [hn, List.cons_append, dropBytes?, if_pos (by omega), show n + 1 - c.utf8Size = byteSize cs by omega]
    exact ih

theorem takeBytes?_byteSize_append (cs ds : List Char) :
    takeBytes? (byteSize cs) (cs ++ ds) = some cs := by
  induction cs with
  | nil => rw [byteSize_nil, takeBytes?]
  | cons c cs ih =>
    have hpos := c.utf8Size_pos
    obtain ⟨n, hn⟩ : ∃ n, byteSize (c :: cs) = n + 1 := ⟨c.utf8Size + byteSize cs - 1, by
      rw [byteSize_cons]; omega⟩
    have hc : c.utf8Size + byteSize cs = n + 1 := by rw [← hn, byteSize_cons]
    rw [hn, List.cons_append, takeBytes?, if_pos (by omega), show n + 1 - c.utf8Size = byteSize cs by omega,
      ih]
    rfl

end LogConfig.Text
