import LogConfig.Diagnostic
import LogConfig.Text.Bytes

/-
  Places in a document. A tracker turns the byte offsets that a reader reaches into lines and
  columns; it only moves forward, and a column counts characters. A stretch that starts or ends
  inside a character is passed over without counting.
-/

namespace LogConfig.Document

structure Tracker where
  /-- The offset reached. -/
  offset : Nat := 0
  location : Location := ⟨1, 1⟩
deriving DecidableEq, Repr, Inhabited

/-- The place after a character. -/
def after (l : Location) (c : Char) : Location :=
  if c = '\n' then ⟨l.line + 1, 1⟩ else ⟨l.line, l.column + 1⟩

/-- The characters between two offsets of a text; none where an offset is inside a character. -/
def stretch (source : List Char) (start stop : Nat) : List Char :=
  ((Text.dropBytes? start source).bind (Text.takeBytes? (stop - start))).getD []

/-- Moves a tracker to an offset, or to the end of the text if that comes first. -/
def Tracker.advance (source : List Char) (t : Tracker) (offset : Nat) : Tracker :=
  let stop := min offset (Text.byteSize source)
  if t.offset < stop then ⟨stop, (stretch source t.offset stop).foldl after t.location⟩ else t

/-- The offset of the last `<` in a text. -/
def lastOpening? (cs : List Char) : Option Nat :=
  match cs.reverse.dropWhile (· ≠ '<') with
  | [] => none
  | _ :: before => some (Text.byteSize before)

/-- The offset of the `<` that opens the tag which ends at an offset. -/
def tagStart (source : List Char) (stop : Nat) : Nat :=
  ((Text.takeBytes? stop source).bind lastOpening?).getD stop

end LogConfig.Document
