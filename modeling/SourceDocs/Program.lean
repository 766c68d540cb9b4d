import SourceDocs.Command.Line

set_option autoImplicit false

/-! # The program

A run follows its command line and ends well, with a fault, or because of the command line. -/

namespace SourceDocs

/-- How a run of the program ends. -/
inductive Ending where
  | success
  | fault (fault : Fault)
  /-- The command line could not be followed. -/
  | usage

namespace Ending

/-- The exit status. -/
def status : Ending → Nat
  | success => 0
  | fault _ => 1
  | usage => 2

/-- What is reported about an ending that is no success. -/
def errorText? : Ending → Option String
  | success => none
  | fault f => some ("Error: " ++ f.message)
  | usage => some "usage: scribe [--config FILE] organize|metadata|structure|analyze|document"

end Ending

namespace Command

variable {m : Type → Type} [Monad m]

/-- Runs a command under a configuration, if it could be loaded. Only an analysis does without. -/
def run (host : Host m) (config : Except Fault Config) (mode : ProgressMode) :
    Command → Hosted m Unit
  | organize => do Config.organize host mode (← ExceptT.mk (pure config))
  | metadata => do Config.writeMetadata host (← ExceptT.mk (pure config))
  | directoryTree => do Config.writeDirectoryTree host (← ExceptT.mk (pure config))
  | analyze file language => Analysis.print host mode config.toOption file language
  | document options => do Config.document host mode (← ExceptT.mk (pure config)) options

end Command

namespace Program

variable {m : Type → Type} [Monad m]

/-- Name and version of the program. -/
def versionText : String := "scribe 0.1.0"

/-- A short account of the command line. -/
def helpLines : List String :=
  ["Ingests a codebase and generates documentation for it.", "",
    "scribe [--config FILE] [--verbose] COMMAND", "",
    "  organize                                group the files of the source by language",
    "  metadata                                record size and time of every file",
    "  structure                               record the directory tree",
    "  analyze [FILE] [--language NAME]        show functions, classes and comments",
    "  document [--hierarchical] [--dry-run] [--from-snapshot] [--progress human|json|off]",
    "                                          generate documentation for every chunk"]

/-- Follows an invocation. An analysis of a whole source needs a configuration. -/
def follow (host : Host m) (i : Invocation) : Hosted m Unit := do
  let config ← ExceptT.lift (Config.load host i.configPath).run
  match i.command, config with
  | .analyze none _, .error f => throw f
  | command, config => command.run host config i.progress

/-- Runs the program with arguments. -/
def run (host : Host m) (args : List String) : m Ending := do
  match CommandLine.parse args with
  | .error .help =>
    host.printLines helpLines
    return .success
  | .error .version =>
    host.print versionText
    return .success
  | .error .usage => return .usage
  | .ok invocation =>
    match ← (follow host invocation).run with
    | .ok () => return .success
    | .error f => return .fault f

end Program

end SourceDocs
