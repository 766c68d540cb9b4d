import SourceDocs.Chunk
import SourceDocs.DirectoryTree
import SourceDocs.Metadata

set_option autoImplicit false

/-! # Context: what a prompt says about a chunk's surroundings

A chunk's context is the metadata of its file and the directory that its file lies in. Either may be
absent, which a prompt shows as an empty object. -/

namespace SourceDocs

/-- What is known about the files of a source. -/
structure ContextStores where
  metadata : MetadataStore := .empty
  tree : DirectoryTree := .empty

/-- The surroundings of one chunk. -/
structure ChunkContext where
  metadata : Option FileMetadata
  directory : Option DirectoryTree

namespace ContextStores

/-- The context of a chunk. -/
def contextOf (s : ContextStores) (c : Chunk) : ChunkContext :=
  { metadata := s.metadata.get? c.path
    directory := s.tree.lookup? (Path.upToLastSlash c.path) }

end ContextStores

namespace ChunkContext

/-- What stands for an absent part. -/
def absent : String := "\x7b\x7d"

/-- The metadata as a prompt shows it. -/
def metadataText (c : ChunkContext) : String :=
  match c.metadata with
  | some m => m.toJson.indentedText
  | none => absent

/-- The directory as a prompt shows it. -/
def directoryText (c : ChunkContext) : String :=
  match c.directory with
  | some d => d.text
  | none => absent

end ChunkContext

/-! ## Prompts -/

namespace Prompt

/-- A request about one chunk. -/
def chunkRequest (instruction : String) (c : Chunk) (ctx : ChunkContext) : String :=
  instruction ++ " the following " ++ c.language.name ++ " code chunk:\n\n" ++ c.content ++
    "\n\nFile Metadata: " ++ ctx.metadataText ++ "\nDirectory Structure: " ++
    ctx.directoryText ++ "\n"

/-- Asks for the documentation of a chunk. -/
def detailed (c : Chunk) (ctx : ChunkContext) : String :=
  chunkRequest "Generate detailed documentation for" c ctx

/-- Asks for the summary of a chunk. -/
def summary (c : Chunk) (ctx : ChunkContext) : String :=
  chunkRequest "Summarize" c ctx

/-- Asks for one summary of all summaries. -/
def combinedSummary (summaries : List String) : String :=
  "Generate a high-level summary for the following code summaries:\n\n" ++
    "\n\n".intercalate summaries

/-- Asks for one document from the overall summary and all detailed documents. -/
def combined (highLevel : String) (detailed : List String) : String :=
  "Combine the following high-level summary with the detailed documentation:\n\n" ++
    "High-level summary:\n" ++ highLevel ++ "\n\nDetailed documentation:\n" ++
    "\n\n".intercalate detailed

end Prompt

end SourceDocs
