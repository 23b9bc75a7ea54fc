import LogConfig.Text.Blank
import LogConfig.Text.Pieces

/-
  Paths of element names. The same type is the nesting path of an element in a document and
  the pattern under which a rule is registered; a pattern whose first name is `*`, followed by
  at least one more, stands for every path that ends in the names after the star.
-/

namespace LogConfig

/-- The name that stands for any nesting when a pattern starts with it. -/
def anyNesting : String := "*"

structure ElementPath where
  tags : List String
deriving DecidableEq, Repr, Inhabited

namespace ElementPath

def empty : ElementPath := ⟨[]⟩

/-- Reads names separated by `/`; blanks around a name and empty names are dropped. -/
def parse (text : String) : ElementPath :=
  ⟨((Text.pieces '/' text.toList).map fun piece => Text.trim (String.ofList piece)).filter (· ≠ "")⟩

/-- The path text: names joined by `/`, each in brackets. -/
def render (path : ElementPath) : String := String.join (path.tags.map fun tag => "[" ++ tag ++ "]")

def size (path : ElementPath) : Nat := path.tags.length

def push (path : ElementPath) (tag : String) : ElementPath := ⟨path.tags ++ [tag]⟩

/-- The path of the enclosing element; the empty path has itself. -/
def parent (path : ElementPath) : ElementPath := ⟨path.tags.dropLast⟩

def last? (path : ElementPath) : Option String := path.tags.getLast?

/-- The names after the star of a wildcard pattern; nothing for any other pattern. -/
def wildcardTail? : ElementPath → Option (List String)
  | ⟨star :: tag :: rest⟩ => if star = anyNesting then some (tag :: rest) else none
  | _ => none

def isWildcard (path : ElementPath) : Bool := path.wildcardTail?.isSome

/-- How many of the last names of a path a wildcard pattern covers: all the names after its star
when the path ends in them, else none. -/
def coveredBy (path pattern : ElementPath) : Nat :=
  match pattern.wildcardTail? with
  | some tail => if tail <:+ path.tags then tail.length else 0
  | none => 0

@[simp] theorem size_push (path : ElementPath) (tag : String) :
    (path.push tag).size = path.size + 1 := by
  simp [size, push]

@[simp] theorem parent_push (path : ElementPath) (tag : String) :
    (path.push tag).parent = path := by
  simp [push, parent]

@[simp] theorem last?_push (path : ElementPath) (tag : String) :
    (path.push tag).last? = some tag := by
  simp [push, last?]

end ElementPath
end LogConfig
