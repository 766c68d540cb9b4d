import SourceDocs.Chunk
import SourceDocs.Text.Padding

set_option autoImplicit false

/-! # Documentation: what a generation run produces

Every request of a run ends as an `Artifact` or as a `Failure`. Two kinds of request are about one
chunk, two are about the corpus as a whole. -/

namespace SourceDocs

/-- What a request asks for. -/
inductive ArtifactKind where
  | detailed
  | summary
  | combinedSummary
  | combined
  deriving DecidableEq

namespace ArtifactKind

/-- All kinds. -/
def all : List ArtifactKind := [detailed, summary, combinedSummary, combined]

/-- The place of the kind among all. -/
def rank : ArtifactKind → Nat
  | detailed => 0
  | summary => 1
  | combinedSummary => 2
  | combined => 3

/-- The kind as one word. -/
def label : ArtifactKind → String
  | detailed => "detailed"
  | summary => "summary"
  | combinedSummary => "combined_summary"
  | combined => "combined"

/-- The kind a word stands for. -/
def ofLabel? (s : String) : Option ArtifactKind :=
  all.find? fun k => k.label = s

end ArtifactKind

/-- A generated text. -/
structure Artifact where
  kind : ArtifactKind
  chunk : Option ChunkId := none
  language : Option Language := none
  text : String
  deriving DecidableEq

/-- A request that produced nothing. -/
structure Failure where
  kind : ArtifactKind
  chunk : Option ChunkId := none
  attempts : Nat
  cause : String
  deriving DecidableEq

namespace Failure

/-- What a failure is about. -/
def target (f : Failure) : String :=
  match f.chunk with
  | some id => toString id
  | none => "corpus"

/-- The line that reports a failure. -/
def line (f : Failure) : String :=
  String.ofList (Text.padRight ' ' 16 f.kind.label.toList) ++ " " ++ f.target ++ " after " ++
    toString f.attempts ++ " attempt(s): " ++ f.cause

end Failure

/-- How a run ended. -/
def completionStatus (cancelled : Bool) (failures : Nat) : String :=
  let count := toString failures ++ " generation failures"
  match cancelled, failures with
  | true, 0 => "cancelled"
  | true, _ => "cancelled with " ++ count
  | false, 0 => "ok"
  | false, _ => "completed with " ++ count

end SourceDocs
