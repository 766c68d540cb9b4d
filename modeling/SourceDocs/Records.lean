import SourceDocs.Documentation
import SourceDocs.Elements
import SourceDocs.Json.Decode
import SourceDocs.Metadata

set_option autoImplicit false

/-! # Domain records as JSON

Each record is written as an object with its fields in a fixed order, a field without value left
out, and read with the freedom of `Json.record?`. -/

namespace SourceDocs

namespace Language

/-- The label as JSON. -/
def toJson (l : Language) : Json := .string l.name

/-- The label that JSON stands for. -/
def ofJson? (j : Json) : Option Language := j.text?.map ofName

end Language

namespace SourceFile

/-- The file as JSON. -/
def toJson (f : SourceFile) : Json :=
  .object [("path", .string f.path), ("content", .string f.content)]

/-- The file that JSON stands for. -/
def ofJson? (j : Json) : Option SourceFile :=
  match Json.record? ["path", "content"] j with
  | some [some path, some content] => do
    return { path := ← path.text?, content := ← content.text? }
  | _ => none

end SourceFile

namespace ElementSet

/-- The elements as JSON. -/
def toJson (e : ElementSet) : Json :=
  .object ([("functions", .strings e.functions)] ++
    Json.optionalField "classes" .strings e.classes ++ [("comments", .strings e.comments)] ++
    Json.optionalField "docstrings" .strings e.docstrings)

/-- The elements that JSON stands for. -/
def ofJson? (j : Json) : Option ElementSet :=
  match Json.record? ["functions", "classes", "comments", "docstrings"] j with
  | some [some functions, classes, some comments, docstrings] => do
    let functions ← functions.list? Json.text?
    let classes ← Json.optional? (Json.list? Json.text?) classes
    let comments ← comments.list? Json.text?
    let docstrings ← Json.optional? (Json.list? Json.text?) docstrings
    return { functions, classes, comments, docstrings }
  | _ => none

end ElementSet

namespace ChunkId

/-- The identity as JSON. -/
def toJson (id : ChunkId) : Json :=
  .object [("path", .string id.path), ("sequence_index", .nat id.index)]

/-- The identity that JSON stands for. -/
def ofJson? (j : Json) : Option ChunkId :=
  match Json.record? ["path", "sequence_index"] j with
  | some [some path, some index] => do
    return { path := ← path.text?, index := ← index.natUpTo? Json.maxWord64 }
  | _ => none

end ChunkId

namespace ArtifactKind

/-- The kind as JSON. -/
def toJson (k : ArtifactKind) : Json := .string k.label

/-- The kind that JSON stands for. -/
def ofJson? (j : Json) : Option ArtifactKind := j.variant?.bind ofLabel?

end ArtifactKind

namespace Artifact

/-- The artifact as JSON. -/
def toJson (a : Artifact) : Json :=
  .object ([("kind", a.kind.toJson)] ++ Json.optionalField "chunk" ChunkId.toJson a.chunk ++
    Json.optionalField "language" Language.toJson a.language ++ [("text", .string a.text)])

/-- The artifact that JSON stands for. -/
def ofJson? (j : Json) : Option Artifact :=
  match Json.record? ["kind", "chunk", "language", "text"] j with
  | some [some kind, chunk, language, some text] => do
    let kind ← ArtifactKind.ofJson? kind
    let chunk ← Json.optional? ChunkId.ofJson? chunk
    let language ← Json.optional? Language.ofJson? language
    let text ← text.text?
    return { kind, chunk, language, text }
  | _ => none

end Artifact

namespace Failure

/-- The failure as JSON. -/
def toJson (f : Failure) : Json :=
  .object ([("kind", f.kind.toJson)] ++ Json.optionalField "chunk" ChunkId.toJson f.chunk ++
    [("attempts", .nat f.attempts), ("cause", .string f.cause)])

/-- The failure that JSON stands for. -/
def ofJson? (j : Json) : Option Failure :=
  match Json.record? ["kind", "chunk", "attempts", "cause"] j with
  | some [some kind, chunk, some attempts, some cause] => do
    let kind ← ArtifactKind.ofJson? kind
    let chunk ← Json.optional? ChunkId.ofJson? chunk
    let attempts ← attempts.natUpTo? Json.maxWord32
    let cause ← cause.text?
    return { kind, chunk, attempts, cause }
  | _ => none

end Failure

end SourceDocs
