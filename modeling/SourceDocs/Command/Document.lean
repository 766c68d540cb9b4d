import SourceDocs.Command.Inspect
import SourceDocs.Report
import SourceDocs.Synthesis.Clock

set_option autoImplicit false

/-! # The command that documents a source

A `DocumentPlan` is what is known before anything is generated; a dry run shows it and ends. What
the prompts tell about files comes from saved stores if there are some, and otherwise from the
source; where neither can be read, the prompts do without. -/

namespace SourceDocs

/-- How a source is to be documented. -/
structure DocumentOptions where
  /-- Also summaries and an overview. -/
  hierarchical : Bool := false
  dryRun : Bool := false
  /-- The corpus comes from its snapshot and not from the source. -/
  fromSnapshot : Bool := false
  deriving DecidableEq

/-- What is to be documented. -/
structure DocumentPlan where
  synthesis : SynthesisOptions
  corpus : Corpus
  chunks : List Chunk
  report : RunReport

namespace DocumentPlan

/-- The plan for a corpus. -/
def ofCorpus (c : Config) (hierarchical : Bool) (corpus : Corpus) (skipped : List SkippedFile) :
    DocumentPlan :=
  let chunks := corpus.chunks c.chunkSize
  { synthesis :=
      { hierarchical := c.generation.hierarchical || hierarchical
        maxConcurrency := max c.generation.maxConcurrency 1
        policy := c.generation.policy }
    corpus, chunks
    report := .ofCorpus corpus skipped chunks.length }

/-- The number of requests about chunks. -/
def requestCount (p : DocumentPlan) : Nat :=
  p.chunks.length * if p.synthesis.hierarchical then 2 else 1

/-- What a dry run shows. -/
def dryRunLines (p : DocumentPlan) (location : String) : List String :=
  ["document " ++ location ++ " (dry-run)"] ++ p.report.lines ++
    [s!"  generation requests: {p.requestCount}"]

end DocumentPlan

/-- What was generated for a plan. -/
structure Documentation where
  model : String
  plan : DocumentPlan
  artifacts : List Artifact
  failures : List Failure

namespace Documentation

/-- The documentation that a finished run gives. -/
def ofRun (model : String) (plan : DocumentPlan) (r : Run) : Documentation :=
  { model, plan, artifacts := r.artifacts, failures := r.failures }

/-- The report on the whole. -/
def report (d : Documentation) : RunReport :=
  d.plan.report.withOutcome d.artifacts d.failures

/-- The documentation as JSON. -/
def toJson (d : Documentation) : Json :=
  .object [("model", .string d.model), ("hierarchical", .bool d.plan.synthesis.hierarchical),
    ("artifacts", .array (d.artifacts.map Artifact.toJson)),
    ("failures", .array (d.failures.map Failure.toJson)),
    ("elements", Corpus.elementsJson d.plan.corpus.elements), ("report", d.report.toJson)]

/-- What is shown after the documentation is written to a file. -/
def lines (d : Documentation) (location path : String) : List String :=
  ["document " ++ location] ++ d.report.lines ++ d.failures.map (fun f => "    " ++ f.line) ++
    ["  written: " ++ path, completionStatus false d.failures.length]

end Documentation

variable {m : Type → Type} [Monad m]

/-- What a computation gives, or something else after a fault. -/
def Hosted.getD {α : Type} (a : Hosted m α) (otherwise : α) : m α := do
  match ← a.run with
  | .ok a => return a
  | .error _ => return otherwise

/-- What a saved file holds; none if no file is configured or there is none. -/
def Host.saved? {α : Type} (host : Host m) (path : Option String) (parse : String → Option α) :
    m (Option (Option α)) := do
  match path with
  | none => return none
  | some path =>
    if ← host.isFile path then return some ((← host.readText path).bind parse) else return none

namespace Config

/-- The metadata for the prompts. -/
def metadataFor (host : Host m) (c : Config) (rules : Classifier) (localRoot : Option String) :
    m MetadataStore := do
  match ← host.saved? c.output.metadata MetadataStore.parse? with
  | some store => return store.getD .empty
  | none =>
    match localRoot with
    | some root => Hosted.getD (LocalSource.metadata host rules root) .empty
    | none => Hosted.getD (c.source.metadata host rules) .empty

/-- The structure for the prompts. -/
def directoryTreeFor (host : Host m) (c : Config) (rules : Classifier)
    (localRoot : Option String) : m DirectoryTree := do
  match ← host.saved? c.output.tree DirectoryTree.parse? with
  | some tree => return tree.getD .empty
  | none =>
    match localRoot with
    | some root => Hosted.getD (LocalSource.directoryTree host rules root) .empty
    | none => Hosted.getD (c.source.directoryTree host rules) .empty

/-- The corpus to document, with what was left out of it and the directory that it lies in. -/
def corpusFor (host : Host m) (mode : ProgressMode) (c : Config) (rules : Classifier)
    (fromSnapshot : Bool) : Hosted m (Corpus × List SkippedFile × Option String) := do
  if fromSnapshot then
    match c.output.corpus with
    | none => throw .noSnapshotPath
    | some path =>
      match (← host.readText path).bind Corpus.ofSnapshot? with
      | some corpus => return (corpus, [], none)
      | none => throw (.snapshot path)
  else
    let ingestion ← c.source.ingest host mode rules
    let corpus := Corpus.organize ingestion.files
    match c.output.corpus with
    | some path => host.save path corpus.snapshot
    | none => pure ()
    return (corpus, ingestion.skipped, ingestion.localRoot)

/-- The provider that texts come from. -/
def provider (host : Host m) (s : GenerationSettings) : Hosted m Provider := do
  let key ← host.environment ProviderError.keyVariable
  ExceptT.mk (pure ((Provider.ofName s.provider s.model s.baseUrl key).mapError .provider))

/-- Documents a source. -/
def document (host : Host m) (mode : ProgressMode) (c : Config) (options : DocumentOptions) :
    Hosted m Unit := do
  let rules ← ExceptT.mk (pure c.classifier)
  let (corpus, skipped, localRoot) ← corpusFor host mode c rules options.fromSnapshot
  let plan := DocumentPlan.ofCorpus c options.hierarchical corpus skipped
  if options.dryRun then
    host.printLines (plan.dryRunLines c.source.location)
  else
    let metadata ← (metadataFor host c rules localRoot : m MetadataStore)
    let tree ← (directoryTreeFor host c rules localRoot : m DirectoryTree)
    let generator := (← provider host c.generation).generator host.send
    let service : Service m :=
      { generator, latency := fun _ => 0, sleep := host.sleep, report := host.report mode }
    let finish ← ((Run.start plan.synthesis plan.chunks { metadata, tree }).drive service .never :
      m ClockedRun)
    let documentation := Documentation.ofRun generator.modelName plan finish.run
    let path := c.output.documentation.getD "documentation.json"
    host.save path documentation.toJson.indentedText
    host.printLines (documentation.lines c.source.location path)

end Config

end SourceDocs
