import LogConfig.Document.Position
import LogConfig.Document.Reference
import LogConfig.Document.Sequence

/-
  The events of a document. Before every event the place is told that the reader has reached: for
  an element the `<` of its start tag, and else the reported offset. Attributes and texts that do
  not unescape are errors, and are left out; a fault of the markup is fatal and ends the document.
-/

namespace LogConfig

/-- What a reader tells about a document. -/
inductive DocumentEvent where
  | startDocument
  /-- The place reached, told before each other event. -/
  | place (location : Location)
  | startElement (name : String) (attributes : List (String × String))
  | characters (text : String)
  | endElement (name : String)
  | endDocument
  | warning (message : String)
  | error (message : String)
  | fatal (message : String)
deriving DecidableEq, Repr, Inhabited

namespace Document

/-- An attribute with its value unescaped, or what is said of a malformed one. -/
def attributeEntry : Except AttributeError (List Char × List Char) → Except String (String × String)
  | .error e => .error ("Malformed attribute: " ++ e.message)
  | .ok (key, raw) =>
    match unescape raw with
    | .ok value => .ok (String.ofList key, String.ofList value)
    | .error e =>
      .error ("Malformed value of attribute [" ++ String.ofList key ++ "]: " ++ e.message)

/-- What is said of the malformed attributes among these. -/
def attributeFaults (attributes : List (Except String (String × String))) : List DocumentEvent :=
  attributes.filterMap fun
    | .error message => some (.error message)
    | .ok _ => none

/-- The well-formed attributes among these. -/
def wellFormed (attributes : List (Except String (String × String))) : List (String × String) :=
  attributes.filterMap fun
    | .error _ => none
    | .ok entry => some entry

/-- The events of one piece of markup, without its place. -/
def eventsOfMarkup : Markup → List DocumentEvent
  | .text raw =>
    match unescape raw with
    | .ok text => [.characters (String.ofList text)]
    | .error e => [.error ("Malformed character data: " ++ e.message)]
  | .cdata content => [.characters (String.ofList content)]
  | .openTag content nameLength closed =>
    let name := String.ofList (localName (content.take nameLength))
    let attributes := (attributesOf content nameLength).map attributeEntry
    attributeFaults attributes ++ .startElement name (wellFormed attributes) ::
      (if closed then [.endElement name] else [])
  | .closeTag name => [.endElement (String.ofList (localName name))]
  | .aside => []
  | .endOfInput => []
  | .fault message => [.fatal ("XML parsing error: " ++ message)]

/-- The offset of the place told before the events of markup. -/
def placeOffset (source : List Char) : Markup × Nat → Nat
  | (.openTag .., reported) => tagStart source reported
  | (_, reported) => reported

/-- The events of markup, each piece after its place. -/
def eventsFrom (source : List Char) : Tracker → List (Markup × Nat) → List DocumentEvent
  | _, [] => []
  | tracker, piece :: rest =>
    let reached := tracker.advance source (placeOffset source piece)
    .place reached.location :: eventsOfMarkup piece.1 ++ eventsFrom source reached rest

/-- The events of a document. -/
def events (source : String) : List DocumentEvent :=
  .startDocument :: eventsFrom source.toList {} (markupOf source.toList) ++ [.endDocument]

end Document
end LogConfig
