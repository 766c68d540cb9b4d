import SourceDocs.ChatService
import SourceDocs.Config
import SourceDocs.Corpus
import SourceDocs.Glob

set_option autoImplicit false

/-! # Faults: why a command ends without a result -/

namespace SourceDocs

/-- What a scan of a local tree is for. -/
inductive ScanRole where
  | source
  | metadata
  | tree
  deriving DecidableEq

/-- A run of the version control program. -/
inductive GitStep where
  | clone
  | fetch
  | reset
  deriving DecidableEq

/-- Why a command ends without a result. -/
inductive Fault where
  | glob (e : Glob.Error)
  | config (e : ConfigError)
  | configUnreadable (path : String)
  | noDirectory (role : ScanRole) (path : String)
  | stagingParent (path : String)
  | gitNotStarted (step : GitStep)
  | gitFailed (step : GitStep) (url errors : String)
  | missingVariable (name : String)
  | listingNotSent (bucket keyPrefix : String)
  | listingInterrupted
  | listingRefused (bucket : String) (status : Nat) (detail : String)
  | listingMalformed
  | provider (e : ProviderError)
  | unreadable (path : String)
  | unwritable (path : String)
  | directoryNotMade (path : String)
  | snapshot (path : String)
  | noExtractor (language : Language)
  | noConfig
  | noSnapshotPath

namespace ScanRole

/-- The first word of a message about a scan. -/
def word : ScanRole → String
  | source => "Source"
  | metadata => "Metadata"
  | tree => "Structure"

end ScanRole

namespace GitStep

/-- The command line of a step, without its arguments. -/
def command : GitStep → String
  | clone => "git clone"
  | fetch => "git fetch"
  | reset => "git reset"

end GitStep

namespace Fault

/-- The fault as text. -/
def message : Fault → String
  | glob e => e.message
  | config e => e.message
  | configUnreadable path => "Failed to read config file: " ++ path
  | noDirectory role path => role.word ++ " root does not exist or is not a directory: " ++ path
  | stagingParent path => "Failed to create staging parent: " ++ path
  | gitNotStarted .clone => "Failed to execute 'git clone'. Is git installed?"
  | gitNotStarted step => "Failed to execute '" ++ step.command ++ "'"
  | gitFailed .clone url errors => "git clone of " ++ url ++ " failed: " ++ errors
  | gitFailed step _ errors => step.command ++ " failed: " ++ errors
  | missingVariable name => name ++ " environment variable not set"
  | listingNotSent bucket keyPrefix =>
    "Failed to list S3 objects in s3://" ++ bucket ++ "/" ++ keyPrefix
  | listingInterrupted => HttpReply.bodyMessage
  | listingRefused bucket status detail =>
    "S3 ListObjectsV2 on bucket '" ++ bucket ++ "' failed (HTTP " ++
      HttpReply.statusText status ++ "): " ++ detail
  | listingMalformed => "Malformed ListObjectsV2 response"
  | provider e => e.message
  | unreadable path => "Failed to read " ++ path
  | unwritable path => "Failed to write " ++ path
  | directoryNotMade path => "Failed to create directory: " ++ path
  | snapshot path => Corpus.loadMessage path
  | noExtractor language => noExtractorMessage language
  | noConfig => "analyze without a FILE needs a readable config"
  | noSnapshotPath => "--from-snapshot needs `[output] corpus` in the config"

end Fault

end SourceDocs
