import SourceDocs.ObjectStore.Bucket
import SourceDocs.Progress

set_option autoImplicit false

/-! # Sources of every kind

A source is read for its files, for their metadata and for its structure. A bucket gives metadata
and structure by its listing; any other source is a directory, if need be after a checkout. -/

namespace SourceDocs

variable {m : Type → Type} [Monad m]

/-- Tells about the progress in a mode. -/
def Host.report (host : Host m) (mode : ProgressMode) (e : ProgressEvent) : m Unit :=
  match e.line? mode with
  | some line => host.printProgress line
  | none => pure ()

namespace SourceConfig

/-- The source files of a source. -/
def ingest (host : Host m) (mode : ProgressMode) (rules : Classifier) (s : SourceConfig) :
    Hosted m Ingestion := do
  host.report mode (.discovering (s.kind ++ ":" ++ s.location))
  match s with
  | directory d => LocalSource.ingest host rules d.root d.followLinks
  | git g => g.ingest host rules
  | bucket b => b.ingest host rules

/-- The metadata of the files of a source. -/
def metadata (host : Host m) (rules : Classifier) (s : SourceConfig) :
    Hosted m MetadataStore := do
  match s with
  | directory d => LocalSource.metadata host rules d.root
  | git g =>
    g.prepare host
    LocalSource.metadata host rules g.stagingDir
  | bucket b => return StoredObject.metadata (← b.list host)

/-- The structure of a source. -/
def directoryTree (host : Host m) (rules : Classifier) (s : SourceConfig) :
    Hosted m DirectoryTree := do
  match s with
  | directory d => LocalSource.directoryTree host rules d.root
  | git g =>
    g.prepare host
    LocalSource.directoryTree host rules g.stagingDir
  | bucket b => return StoredObject.directoryTree (← b.list host)

end SourceConfig

end SourceDocs
