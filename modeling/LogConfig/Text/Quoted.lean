import LogConfig.Text.Numeral
import LogConfig.Text.PrintTable
import LogConfig.Text.Blank

/-
  Quoted texts: a text between double quotes in which quotes, backslashes, line ends and tabs
  are escaped by a backslash and every character that would not be seen is written by its
  number, as in `\u{200b}`.
-/

namespace LogConfig.Text

/-- Whether a character can be shown as it is. -/
def isPrintable (c : Char) : Bool :=
  if c.toNat < 0x7F then 0x20 ≤ c.toNat
  else c.toNat != 0x7F && !inRanges unprintableRanges c.toNat

/-- The written form of one character of a quoted text. -/
def quoteChar (c : Char) : String :=
  if c = '\x00' then "\\0"
  else if c = '\t' then "\\t"
  else if c = '\r' then "\\r"
  else if c = '\n' then "\\n"
  else if c = '\\' then "\\\\"
  else if c = '"' then "\\\""
  else if isPrintable c then c.toString
  else "\\u\x7b" ++ hexadecimal c.toNat ++ "\x7d"

/-- A text between double quotes, escaped. -/
def quoted (s : String) : String := "\"" ++ String.join (s.toList.map quoteChar) ++ "\""

/-- Texts joined by a separator. -/
def joined (separator : String) (parts : List String) : String := separator.intercalate parts

/-- Quoted texts in a bracketed list. -/
def quotedList (parts : List String) : String :=
  "[" ++ joined ", " (parts.map quoted) ++ "]"

/-- Quoted keys and values in a braced table. -/
def quotedEntries (entries : List (String × String)) : String :=
  "\x7b" ++ joined ", " (entries.map fun (k, v) => quoted k ++ ": " ++ quoted v) ++ "\x7d"

end LogConfig.Text
