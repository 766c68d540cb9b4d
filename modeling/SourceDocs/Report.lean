import SourceDocs.Corpus
import SourceDocs.Documentation

set_option autoImplicit false

/-! # The run report: counts of what a run read, left out and produced -/

namespace SourceDocs

/-- What a run did, in numbers. -/
structure RunReport where
  filesIngested : Nat := 0
  /-- Files left out, by reason. -/
  skipped : SortedMap String Nat := .empty
  /-- Files by language. -/
  languages : SortedMap String Nat := .empty
  /-- Files of languages without an extractor. -/
  noExtractor : SortedMap String Nat := .empty
  chunks : Nat := 0
  artifacts : Nat := 0
  failures : Nat := 0

namespace RunReport

/-- The report on a corpus and the files left out of it, before anything is generated. -/
def ofCorpus (c : Corpus) (skipped : List SkippedFile) (chunks : Nat) : RunReport :=
  { filesIngested := c.fileCount
    skipped := .tally (skipped.map fun f => f.reason.label)
    languages := .ofList (c.groups.entries.map fun g => (g.1.name, g.2.length))
    noExtractor := .tally (c.unsupported.map fun f => f.2.name)
    chunks }

/-- The report with the outcome of generation. -/
def withOutcome (r : RunReport) (artifacts : List Artifact) (failures : List Failure) :
    RunReport :=
  { r with artifacts := artifacts.length, failures := failures.length }

/-- The number of files left out. -/
def skippedTotal (r : RunReport) : Nat := r.skipped.total id

/-- Counts as JSON. -/
def countsJson (counts : SortedMap String Nat) : Json :=
  .object (counts.entries.map fun e => (e.1, .nat e.2))

/-- The report as JSON. -/
def toJson (r : RunReport) : Json :=
  .object [("files_ingested", .nat r.filesIngested), ("skipped", countsJson r.skipped),
    ("languages", countsJson r.languages), ("no_extractor", countsJson r.noExtractor),
    ("chunks", .nat r.chunks), ("artifacts", .nat r.artifacts), ("failures", .nat r.failures)]

/-- The lines of a table of counts. -/
def tableLines (counts : SortedMap String Nat) : List String :=
  counts.entries.map fun e =>
    String.ofList ("    ".toList ++ Text.padRight ' ' 22 e.1.toList ++ ' ' ::
      Text.padNumber ' ' 6 e.2)

/-- The report as lines of text. -/
def lines (r : RunReport) : List String :=
  [s!"  files ingested: {r.filesIngested}", s!"  files skipped: {r.skippedTotal}"] ++
    tableLines r.skipped ++ [s!"  languages: {r.languages.size}"] ++ tableLines r.languages ++
    (if r.noExtractor.entries.isEmpty then []
      else "  no element extractor:" :: tableLines r.noExtractor) ++
    [s!"  chunks: {r.chunks}", s!"  artifacts: {r.artifacts}", s!"  failures: {r.failures}"]

end RunReport

end SourceDocs
