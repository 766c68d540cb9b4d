import SourceDocs.Fault
import SourceDocs.Host
import SourceDocs.Scan

set_option autoImplicit false

/-! # Local sources: directories and checkouts

A repository is cloned into its staging directory. If that holds a checkout already, the checkout is
brought up to date instead. From then on it is read like any directory, without following links. -/

namespace SourceDocs

/-- A computation that needs a host and may end in a fault. -/
abbrev Hosted (m : Type → Type) := ExceptT Fault m

namespace LocalSource

variable {m : Type → Type} [Monad m]

/-- The tree of a directory. -/
def tree (host : Host m) (role : ScanRole) (root : String) (follow : Bool) :
    Hosted m WalkTree := do
  match ← host.walk root follow with
  | some tree => return tree
  | none => throw (.noDirectory role root)

/-- The source files of a directory. -/
def ingest (host : Host m) (c : Classifier) (root : String) (follow : Bool) :
    Hosted m Ingestion := do
  let (files, skipped) := Scan.ingest c (← tree host .source root follow)
  return { files, skipped, localRoot := some root }

/-- The metadata of the files of a directory. -/
def metadata (host : Host m) (c : Classifier) (root : String) : Hosted m MetadataStore := do
  return Scan.metadata c (← tree host .metadata root false)

/-- The structure of a directory. -/
def directoryTree (host : Host m) (c : Classifier) (root : String) : Hosted m DirectoryTree := do
  return Scan.directoryTree c (← tree host .tree root false)

end LocalSource

namespace GitSource

variable {m : Type → Type} [Monad m]

/-- Runs the version control program, which has to succeed. -/
def runStep (host : Host m) (s : GitSource) (step : GitStep) (directory : String)
    (arguments : List String) : Hosted m Unit := do
  match ← host.git directory arguments with
  | none => throw (.gitNotStarted step)
  | some result =>
    if result.success then return () else throw (.gitFailed step s.url (Text.trim result.errors))

/-- Clones the repository. -/
def clone (host : Host m) (s : GitSource) : Hosted m Unit := do
  match Path.parent? s.stagingDir with
  | some above =>
    unless ← host.makeDirectories above do throw (.stagingParent above)
  | none => pure ()
  let branch :=
    match s.branch with
    | some b => ["--branch", b]
    | none => []
  s.runStep host .clone "" (["clone"] ++ branch ++ [s.url, s.stagingDir])

/-- Brings a checkout up to date. -/
def refresh (host : Host m) (s : GitSource) : Hosted m Unit := do
  s.runStep host .fetch s.stagingDir (["fetch", "origin"] ++ s.branch.toList)
  let target :=
    match s.branch with
    | some b => "origin/" ++ b
    | none => "FETCH_HEAD"
  s.runStep host .reset s.stagingDir ["reset", "--hard", target]

/-- Makes the staging directory hold the current state of the repository. -/
def prepare (host : Host m) (s : GitSource) : Hosted m Unit := do
  if ← host.pathExists (Path.join s.stagingDir ".git") then s.refresh host else s.clone host

/-- The source files of the repository. -/
def ingest (host : Host m) (c : Classifier) (s : GitSource) : Hosted m Ingestion := do
  s.prepare host
  LocalSource.ingest host c s.stagingDir false

end GitSource

end SourceDocs
