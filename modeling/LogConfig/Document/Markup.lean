import LogConfig.Document.Attribute
import LogConfig.Text.Blank

/-
  The markup of a document: a text is read as a sequence of tags and the text between them, each
  with the byte offset that the reader reports for it. Blanks around text between tags are
  dropped. End tags must match the start tags that are open; the first fault ends the reading.
-/

namespace LogConfig.Document

inductive Markup where
  /-- Text between tags, as written. -/
  | text (raw : List Char)
  /-- The content of a CDATA section. -/
  | cdata (content : List Char)
  /-- A start tag: its content, how many characters of it are the name, and whether the element
  is closed at once. -/
  | openTag (content : List Char) (nameLength : Nat) (closed : Bool)
  | closeTag (name : List Char)
  /-- A comment, a declaration or an instruction. -/
  | aside
  | endOfInput
  | fault (message : String)
deriving DecidableEq, Repr, Inhabited

/-- What is left to read: the names of the open start tags, innermost first, the bytes read so
far, and the rest of the text. -/
structure Remaining where
  openNames : List (List Char)
  offset : Nat
  rest : List Char

/-- Markup with the offset reported for it, and what is left unless the reading ends. -/
structure Reading where
  markup : Markup
  reported : Nat
  remaining : Option Remaining

/-- The fault of an input that ends too soon. -/
def endInside (what : String) : Markup := .fault ("Unexpected EOF during reading " ++ what)

/-- The part of a name after its first colon. -/
def localName (name : List Char) : List Char :=
  match name.dropWhile (· ≠ ':') with
  | [] => name
  | _ :: rest => rest

/-- How a quote changes whether a character of a tag is quoted, and by which quote. -/
def quoteAfter (quote : Option Char) (c : Char) : Option Char :=
  match quote with
  | some q => if c = q then none else some q
  | none => if c = '"' || c = '\'' then some c else none

/-- Splits a tag at its first `>` outside quotes: the content, and the text after the tag unless
the input ends first. -/
def breakTag : Option Char → List Char → List Char × Option (List Char)
  | _, [] => ([], none)
  | quote, c :: cs =>
    if c = '>' && quote.isNone then ([], some cs)
    else
      let (content, rest) := breakTag (quoteAfter quote c) cs
      (c :: content, rest)

/-- Splits a text at its first `>`: what comes before, and what comes after unless there is none. -/
def breakClosing : List Char → List Char × Option (List Char)
  | [] => ([], none)
  | c :: cs =>
    if c = '>' then ([], some cs)
    else
      let (content, rest) := breakClosing cs
      (c :: content, rest)

/-- Splits a text at the first `>` before which the text satisfies `done`, which is given the
text backwards. -/
def breakWhere (done : List Char → Bool) : List Char → List Char → Option (List Char × List Char)
  | _, [] => none
  | before, c :: cs =>
    if c = '>' && done before then some (before.reverse, cs)
    else breakWhere done (c :: before) cs

/-- Whether a comment can end after this text, given backwards. -/
def endsComment : List Char → Bool
  | '-' :: '-' :: rest => 4 ≤ Text.byteSize ('-' :: '-' :: rest)
  | _ => false

/-- Whether a CDATA section can end after this text, given backwards. -/
def endsSection : List Char → Bool
  | ']' :: ']' :: _ => true
  | _ => false

/-- Whether a document type can end after this text: its brackets are balanced. -/
def endsDoctype (before : List Char) : Bool := before.count '<' = before.count '>'

/-- Whether a text starts with another, in any case of ASCII letters. -/
def startsLike (start : String) (cs : List Char) : Bool :=
  (cs.take start.length).map Char.toLower = start.toList.map Char.toLower

/-- What the content between `<!` and its `>` is, by the character it starts with. -/
def commentMarkup : List Char → Markup
  | '-' :: '-' :: _ => .aside
  | _ => endInside "Comment"

def sectionMarkup (content : List Char) : Markup :=
  if startsLike "[CDATA[" content then .cdata ((content.drop 7).take (content.length - 9))
  else endInside "CData"

def doctypeMarkup (content : List Char) : Markup :=
  if startsLike "DOCTYPE" content then
    if (content.drop 7).all isSpace then .fault "DOCTYPE declaration must not be empty" else .aside
  else endInside "DOCTYPE"

/-- Continues after a tag, unless its markup is a fault. -/
def proceed (markup : Markup) (reported : Nat) (remaining : Remaining) : Reading :=
  match markup with
  | .fault message => ⟨.fault message, reported, none⟩
  | markup => ⟨markup, reported, some remaining⟩

/-- Reads a declaration whose end is found by `done`; the text starts after `<!`. -/
def readUntil (done : List Char → Bool) (markup : List Char → Markup) (unfinished : String)
    (names : List (List Char)) (offset : Nat) (cs : List Char) : Reading :=
  match breakWhere done [] cs with
  | none => ⟨endInside unfinished, offset, none⟩
  | some (content, rest) =>
    let stop := offset + Text.byteSize content + 2
    proceed (markup content) stop ⟨names, stop, rest⟩

/-- Reads what starts with `<!`; the text starts after it, the offset is that after the `<`. -/
def readDeclaration (names : List (List Char)) (offset : Nat) (cs : List Char) : Reading :=
  match cs with
  | [] => ⟨endInside "Bang", offset, none⟩
  | '-' :: _ => readUntil endsComment commentMarkup "Comment" names offset cs
  | '[' :: _ => readUntil endsSection sectionMarkup "CData" names offset cs
  | c :: _ =>
    if c = 'D' || c = 'd' then readUntil endsDoctype doctypeMarkup "DOCTYPE" names offset cs
    else
      ⟨.fault ("Only Comment (\x60--\x60), CDATA (\x60[CDATA[\x60) and DOCTYPE (\x60DOCTYPE\x60) " ++
        "nodes can start with a '!', but symbol \x60" ++ (Text.leadingByte c).toString ++
        "\x60 found"), offset, none⟩

/-- The name in an end tag: without the blanks after it, unless it is all blank. -/
def closingName (cs : List Char) : List Char :=
  if cs.all isSpace then cs else Text.stripEnd isSpace cs

/-- The markup of an end tag with this text after its `</`, among the open names. -/
def closingMarkup (names : List (List Char)) (cs : List Char) : Markup :=
  let mismatch (expected found : List Char) : Markup :=
    .fault ("Expecting </" ++ String.ofList expected ++ "> found </" ++ String.ofList found ++ ">")
  match names with
  | [] => mismatch [] cs
  | expected :: _ =>
    if closingName cs = expected then .closeTag expected else mismatch expected (closingName cs)

/-- The offset after a tag with this content; the closing `>` counts if it is there. -/
def offsetAfter (offset : Nat) (content : List Char) (rest : Option (List Char)) : Nat :=
  offset + Text.byteSize content + (if rest.isSome then 1 else 0)

/-- Reads an end tag; the text starts after `</`, the offset is that after the `<`. -/
def readEndTag (names : List (List Char)) (offset : Nat) (cs : List Char) : Reading :=
  let (name, rest) := breakClosing cs
  let stop := offsetAfter (offset + 1) name rest
  match closingMarkup names name with
  | .fault message => ⟨.fault message, stop - (Text.byteSize name + 1), none⟩
  | markup => ⟨markup, stop, some ⟨names.tail, stop, rest.getD []⟩⟩

/-- Reads an instruction; the text starts with the `?`, the offset is that after the `<`. -/
def readInstruction (names : List (List Char)) (offset : Nat) (cs : List Char) : Reading :=
  let (content, rest) := breakClosing cs
  let stop := offsetAfter offset content rest
  if 2 < Text.byteSize content && content.getLast? = some '?' then
    ⟨.aside, stop, some ⟨names, stop, rest.getD []⟩⟩
  else ⟨endInside "XmlDecl", stop - Text.byteSize content, none⟩

/-- Reads a start tag; the offset is that after the `<`, and stays there if the tag does not end. -/
def readStartTag (names : List (List Char)) (offset : Nat) (cs : List Char) : Reading :=
  let (content, rest) := breakTag none cs
  let stop := if rest.isSome then offset + Text.byteSize content + 1 else offset
  let name := content.takeWhile fun c => !isSpace c
  if content.getLast? = some '/' then
    let inner := content.dropLast
    ⟨.openTag inner (min name.length inner.length) true, stop, some ⟨names, stop, rest.getD []⟩⟩
  else ⟨.openTag content name.length false, stop, some ⟨name :: names, stop, rest.getD []⟩⟩

/-- Reads a tag; the text starts after the `<`. -/
def readTag (names : List (List Char)) (offset : Nat) (cs : List Char) : Reading :=
  match cs with
  | [] => ⟨.endOfInput, offset, none⟩
  | '!' :: rest => readDeclaration names offset rest
  | '/' :: rest => readEndTag names offset rest
  | '?' :: _ => readInstruction names offset cs
  | _ => readStartTag names offset cs

/-- Text between tags with the offset reported for it, if there is any, the offset reached, and
what follows the next `<` if there is one. -/
def readText (offset : Nat) (cs : List Char) :
    List (Markup × Nat) × Nat × Option (List Char) :=
  let body := cs.dropWhile isSpace
  let start := offset + Text.byteSize (cs.takeWhile isSpace)
  let raw := body.takeWhile (· ≠ '<')
  let stop := start + Text.byteSize raw
  let text := Markup.text (Text.stripEnd isSpace raw)
  match body.dropWhile (· ≠ '<') with
  | [] => (if raw.isEmpty then [] else [(text, stop - 1)], stop, none)
  | _ :: inside => (if raw.isEmpty then [] else [(text, stop)], stop + 1, some inside)

end LogConfig.Document
