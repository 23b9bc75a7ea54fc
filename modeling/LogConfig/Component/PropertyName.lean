import LogConfig.Text.LetterCase

/-
  Spelling of property names. A name in a document may start with a capital letter; the property
  it means starts with a small one, unless the first two letters are capitals (`URL`). Names of
  collections are compared with their first letter raised.
-/

namespace LogConfig.PropertyName

/-- Lowers the first character, unless the first two are both upper case. -/
def decapitalize (name : String) : String :=
  match name.toList with
  | [] => ""
  | [first] => String.ofList (Text.lowerForm first)
  | first :: second :: rest =>
    if Text.isUppercase first && Text.isUppercase second then name
    else String.ofList (Text.lowerForm first ++ second :: rest)

/-- Raises the first character. -/
def capitalize (name : String) : String :=
  match name.toList with
  | [] => ""
  | first :: rest => String.ofList (Text.upperForm first ++ rest)

end LogConfig.PropertyName
