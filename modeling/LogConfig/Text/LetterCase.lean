import LogConfig.Text.CaseTable

/-
  Upper and lower case of a single character. The forms are texts because some characters have
  an upper-case form of several characters (`ß` becomes `SS`).
-/

namespace LogConfig.Text

/-- The run of the table that holds a code point shifts it; without one there is no shift. -/
def shiftIn (runs : List CaseRun) (n : Nat) : Int :=
  match runs.find? fun (first, last, step, _) =>
    first ≤ n && n ≤ last && (n - first) % step == 0 with
  | some (_, _, _, shift) => shift
  | none => 0

/-- Case form of a character outside ASCII: its expansion, else its shift. -/
def caseForm (expansions : List (Nat × List Nat)) (runs : List CaseRun) (c : Char) : List Char :=
  match expansions.lookup c.toNat with
  | some forms => forms.map Char.ofNat
  | none => [Char.ofNat (c.toNat + shiftIn runs c.toNat).toNat]

def upperForm (c : Char) : List Char :=
  if c.toNat < 0x80 then [c.toUpper] else caseForm upperExpansions upperRuns c

def lowerForm (c : Char) : List Char :=
  if c.toNat < 0x80 then [c.toLower] else caseForm lowerExpansions lowerRuns c

def isUppercase (c : Char) : Bool :=
  if c.toNat < 0x80 then c.isUpper
  else uppercaseRuns.any fun (first, last, step) =>
    first ≤ c.toNat && c.toNat ≤ last && (c.toNat - first) % step == 0

end LogConfig.Text
