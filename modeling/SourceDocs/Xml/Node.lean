import SourceDocs.Xml.Token

set_option autoImplicit false

/-! # Document trees

A document is its first element. Nothing but blanks and declarations may precede it, and what
follows it does not count. Text loses the blanks next to tags. -/

namespace SourceDocs.Xml

/-- A part of an element. -/
inductive Node where
  /-- Text; none if a reference in it cannot be resolved. -/
  | text (content : Option (List Char))
  | element (name attributes : List Char) (children : List Node)

/-- A piece of text between two tags. -/
inductive Piece where
  | text (raw : List Char)
  | verbatim (raw : List Char)

namespace Piece

/-- Whether a piece consists of blanks that do not count between tags. -/
def isIdle : Piece → Bool
  | text raw => raw.all isBlank
  | verbatim _ => false

/-- A first piece without the blanks it starts with. -/
def trimStart : Piece → Piece
  | text raw => .text (raw.dropWhile isBlank)
  | verbatim raw => .verbatim raw

/-- A last piece without the blanks it ends with. -/
def trimEnd : Piece → Piece
  | text raw => .text (Xml.trimEnd raw)
  | verbatim raw => .verbatim raw

/-- What a piece stands for. -/
def content? : Piece → Option (List Char)
  | text raw => unescape? raw
  | verbatim raw => some raw

/-- Pieces whose first one does not start, and whose last one does not end, with idle blanks. -/
def trimmed (pieces : List Piece) : List Piece :=
  match pieces.dropWhile isIdle with
  | [] => []
  | first :: rest =>
    let pieces := first.trimStart :: rest
    pieces.dropLast ++ (pieces.getLast?.map trimEnd).toList

end Piece

/-- The text that the pieces between two tags make, if any. -/
def textOf (pieces : List Piece) : List Node :=
  match Piece.trimmed pieces with
  | [] => []
  | pieces => [.text ((pieces.mapM Piece.content?).map List.flatten)]

/-- An element that has begun but not ended. -/
structure OpenElement where
  name : List Char
  attributes : List Char
  /-- The parts so far, the last one first. -/
  parts : List Node := []

/-- Puts text into the innermost element. Outside of all elements there must be none. -/
def placeText (pieces : List Piece) : List OpenElement → Option (List OpenElement)
  | [] => if (textOf pieces).isEmpty then some [] else none
  | inner :: outer => some ({ inner with parts := textOf pieces ++ inner.parts } :: outer)

/-- The first element of tokens, given the elements that are open, the innermost one first, and the
pieces of text since the last tag. -/
def build : List OpenElement → List Piece → List Token → Option Node
  | opened, pieces, .text raw :: tokens => build opened (pieces ++ [.text raw]) tokens
  | opened, pieces, .verbatim raw :: tokens => build opened (pieces ++ [.verbatim raw]) tokens
  | opened, pieces, .doctype :: tokens =>
    match placeText pieces opened with
    | some opened => build opened [] tokens
    | none => none
  | opened, pieces, .opening name attributes isEmpty :: tokens =>
    match placeText pieces opened with
    | none => none
    | some opened =>
      if isEmpty then
        match opened with
        | [] => some (.element name attributes [])
        | inner :: outer =>
          build ({ inner with parts := .element name attributes [] :: inner.parts } :: outer) []
            tokens
      else build ({ name, attributes } :: opened) [] tokens
  | opened, pieces, .closing name :: tokens =>
    match placeText pieces opened with
    | some (inner :: outer) =>
      if inner.name = name then
        let whole := Node.element name inner.attributes inner.parts.reverse
        match outer with
        | [] => some whole
        | next :: outer => build ({ next with parts := whole :: next.parts } :: outer) [] tokens
      else none
    | _ => none
  | _, _, .fault :: _ => none
  | _, _, [] => none

/-- A document without the mark that may precede it. -/
def withoutMark : List Char → List Char
  | '\uFEFF' :: cs => cs
  | cs => cs

/-- The element that a document is. -/
def Node.ofDocument? (s : String) : Option Node :=
  build [] [] (Token.lex (withoutMark s.toList))

end SourceDocs.Xml
