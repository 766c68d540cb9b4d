import SourceDocs.Ingest

set_option autoImplicit false

/-! # Commands that inspect a source

Each reads a source, writes or shows what it found, and ends with a short account of that. -/

namespace SourceDocs

variable {m : Type → Type} [Monad m]

/-- Prints lines. -/
def Host.printLines (host : Host m) (lines : List String) : m Unit :=
  lines.forM host.print

/-- Writes a text to a file, in a directory that is made if there is none. -/
def Host.save (host : Host m) (path text : String) : Hosted m Unit := do
  match Path.parent? path with
  | some above =>
    if above ≠ "" then
      unless ← host.makeDirectories above do throw (.directoryNotMade above)
  | none => pure ()
  unless ← host.writeText path text do throw (.unwritable path)

namespace Config

/-- The configuration in a file. -/
def load (host : Host m) (path : String) : Hosted m Config := do
  match ← host.readText path with
  | none => throw (.configUnreadable path)
  | some text =>
    match parse text with
    | .ok c => return c
    | .error e => throw (.config e)

/-- The classifier that a configuration describes. -/
def classifier (c : Config) : Except Fault Classifier :=
  (Classifier.ofRules c.rules).mapError .glob

/-- The corpus of a source, with what was left out of it. -/
def corpus (host : Host m) (mode : ProgressMode) (c : Config) : Hosted m (Corpus × Ingestion) := do
  let rules ← ExceptT.mk (pure c.classifier)
  let ingestion ← c.source.ingest host mode rules
  return (.organize ingestion.files, ingestion)

/-- The line that counts the files of a language. -/
def languageLine (language : Language) (count : Nat) : String :=
  "    " ++ language.name ++ " " ++ String.ofList (Text.padNumber ' ' 6 count)

/-- Groups the files of a source by language and, if a file for it is configured, saves them. -/
def organize (host : Host m) (mode : ProgressMode) (c : Config) : Hosted m Unit := do
  let (corpus, ingestion) ← c.corpus host mode
  host.printLines <|
    ["organize " ++ c.source.location, s!"  files: {corpus.fileCount}",
      s!"  skipped: {ingestion.skipped.length}", s!"  languages: {corpus.languageCount}"] ++
      corpus.groups.entries.map fun g => languageLine g.1 g.2.length
  match c.output.corpus with
  | some path =>
    host.save path corpus.snapshot
    host.print ("  snapshot: " ++ path)
  | none => pure ()
  host.print "ok"

/-- Writes the metadata of the files of a source. -/
def writeMetadata (host : Host m) (c : Config) : Hosted m Unit := do
  let rules ← ExceptT.mk (pure c.classifier)
  let store ← c.source.metadata host rules
  let path := c.output.metadata.getD "file_metadata.json"
  host.save path (MetadataStore.text store)
  host.printLines
    ["metadata " ++ c.source.location, s!"  files: {store.size}", "  written: " ++ path]

/-- Writes the structure of a source. -/
def writeDirectoryTree (host : Host m) (c : Config) : Hosted m Unit := do
  let rules ← ExceptT.mk (pure c.classifier)
  let tree ← c.source.directoryTree host rules
  let path := c.output.tree.getD "file_structure.json"
  host.save path tree.text
  host.printLines
    ["structure " ++ c.source.location, s!"  top-level entries: {tree.entries.length}",
      "  written: " ++ path]

end Config

namespace Analysis

/-- The analysis of one file, in a language that is given or detected. -/
def ofFile (path content : String) (language : Option String) : Except Fault Json :=
  let language :=
    match language with
    | some name => Language.ofName name
    | none => Language.detect path content
  match extractElements? language content with
  | none => .error (.noExtractor language)
  | some elements =>
    .ok (.object [("path", .string path), ("language", language.toJson),
      ("elements", elements.toJson)])

/-- Shows the elements of a file or of all files of a source. -/
def print (host : Host m) (mode : ProgressMode) (c : Option Config)
    (file language : Option String) : Hosted m Unit := do
  match file with
  | some path =>
    match ← host.readText path with
    | none => throw (.unreadable path)
    | some content =>
      let analysis ← ExceptT.mk (pure (ofFile path content language))
      host.print analysis.sorted.indentedText
  | none =>
    match c with
    | none => throw .noConfig
    | some c =>
      let (corpus, _) ← c.corpus host mode
      host.print (Corpus.elementsJson corpus.elements).sorted.indentedText

end Analysis

end SourceDocs
