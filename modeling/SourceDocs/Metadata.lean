import SourceDocs.Json.Decode
import SourceDocs.SortedMap
import SourceDocs.Time.Reader

set_option autoImplicit false

/-! # The metadata store: size and modification time of every file

A `MetadataStore` maps the path of a file to its `FileMetadata`. The last write for a path wins.
A store is written as an indented JSON object with one field a path, in path order. -/

namespace SourceDocs

/-- What is known about a file without its content. -/
structure FileMetadata where
  size : Nat
  lastModified : Instant
  deriving DecidableEq

namespace FileMetadata

/-- The metadata as JSON. -/
def toJson (m : FileMetadata) : Json :=
  .object [("size", .nat m.size), ("last_modified", .string (toString m.lastModified))]

/-- The metadata that JSON stands for. -/
def ofJson? (j : Json) : Option FileMetadata :=
  match Json.record? ["size", "last_modified"] j with
  | some [some size, some lastModified] => do
    let size ← size.natUpTo? Json.maxWord64
    let lastModified ← lastModified.text?.bind Instant.parse?
    return { size, lastModified }
  | _ => none

end FileMetadata

/-- The metadata of the files of a source, by path. -/
abbrev MetadataStore := SortedMap String FileMetadata

namespace MetadataStore

/-- The store as JSON. -/
def toJson (s : MetadataStore) : Json :=
  .object (s.entries.map fun e => (e.1, e.2.toJson))

/-- The text a store is saved as. -/
def text (s : MetadataStore) : String :=
  s.toJson.indentedText

/-- The store that a text stands for. -/
def parse? (text : String) : Option MetadataStore := do
  let j ← Json.parse? text
  return .ofList (← j.entries? FileMetadata.ofJson?)

/-- What is reported where the store at `path` cannot be loaded. -/
def loadMessage (path : String) : String :=
  "Failed to load metadata store: " ++ path

end MetadataStore

end SourceDocs
