import SourceDocs.Language.Catalogue
import SourceDocs.Path

set_option autoImplicit false

/-! # Language detection

A file's language is taken from its extension, or else its whole name, or else its first line. The
first of these that the catalogue knows decides, even when it decides for plain text, which is no
language. -/

namespace SourceDocs.Language

/-- The catalogue entry for a file. -/
def entry? (path content : String) : Option Entry :=
  let byName? := (Path.fileName? path).bind byExtension?
  let byLine? := (Text.firstLine? content.toList).bind byFirstLine?
  ((Path.extension? path).bind byExtension?).or (byName?.or byLine?)

/-- The language of a file with the given path and content. -/
def detect (path content : String) : Language :=
  match entry? path content with
  | some e => if e.name = plainText then .unknown else .known e.name
  | none => .unknown

end SourceDocs.Language
