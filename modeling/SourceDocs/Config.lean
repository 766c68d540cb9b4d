import SourceDocs.Chunk
import SourceDocs.Classifier
import SourceDocs.Generation
import SourceDocs.Text.Blank
import SourceDocs.Toml.Reader

set_option autoImplicit false

/-! # Configurations

A configuration is a TOML document. It has to name a source; all else has defaults. `Config.parse`
reads a document and then checks the values in a fixed order. -/

namespace SourceDocs

/-- A directory as the source. -/
structure DirectorySource where
  root : String
  followLinks : Bool := false

/-- A repository as the source. -/
structure GitSource where
  url : String
  /-- Where the checkout lies. -/
  stagingDir : String
  branch : Option String := none

/-- A part of a bucket as the source. -/
structure BucketSource where
  bucket : String
  /-- What the keys of the objects start with. -/
  keyPrefix : String := ""
  region : String := "us-east-1"
  /-- The address of the service where it is not the usual one. -/
  endpoint : Option String := none

/-- Where files come from. -/
inductive SourceConfig where
  | directory (s : DirectorySource)
  | git (s : GitSource)
  | bucket (s : BucketSource)

namespace SourceConfig

/-- The kind of a source. -/
def kind : SourceConfig → String
  | directory _ => "filesystem"
  | git _ => "git"
  | bucket _ => "s3"

/-- Where a source lies, as one text. -/
def location : SourceConfig → String
  | directory s => s.root
  | git s => s.url
  | bucket s => "s3://" ++ s.bucket ++ "/" ++ s.keyPrefix

end SourceConfig

/-- How texts are generated. -/
structure GenerationSettings where
  provider : String := "openai"
  model : String := "gpt-3.5-turbo"
  baseUrl : String := "https://api.openai.com/v1"
  maxConcurrency : Nat := 4
  maxAttempts : Nat := 3
  /-- The first delay between two calls, in milliseconds. -/
  backoff : Nat := 1000
  /-- How long a call may take, in seconds. -/
  timeout : Nat := 60
  hierarchical : Bool := false

namespace GenerationSettings

/-- Whether texts are generated at all. -/
def isEnabled (s : GenerationSettings) : Bool := s.provider ≠ "disabled"

/-- The retry policy. -/
def policy (s : GenerationSettings) : RetryPolicy := .ofBackoff s.maxAttempts s.backoff

end GenerationSettings

/-- Where results are written. -/
structure OutputPaths where
  documentation : Option String := none
  corpus : Option String := none
  metadata : Option String := none
  tree : Option String := none

/-- A configuration. -/
structure Config where
  source : SourceConfig
  rules : ExclusionRules := {}
  /-- The number of characters of a chunk. -/
  chunkSize : Nat := defaultChunkSize
  generation : GenerationSettings := {}
  output : OutputPaths := {}

/-- Why a text is no configuration. -/
inductive ConfigError where
  /-- It is no document, or a field has a value of the wrong kind. -/
  | malformed
  | emptyUrl
  | emptyBucket
  | zeroChunkSize
  | zeroConcurrency
  | zeroAttempts
  | unknownProvider (name : String)
  deriving DecidableEq

namespace ConfigError

/-- The error as text. -/
def message : ConfigError → String
  | malformed => "Failed to parse config file"
  | emptyUrl => "source.url must not be empty for a git source"
  | emptyBucket => "source.bucket must not be empty for an s3 source"
  | zeroChunkSize => "chunking.chunk_size must be > 0"
  | zeroConcurrency => "generation.max_concurrency must be > 0"
  | zeroAttempts => "generation.max_attempts must be > 0"
  | unknownProvider name =>
    "Unknown generation provider: '" ++ name ++ "'. Must be disabled or openai."

end ConfigError

namespace Config

open Toml

/-! ## Decoding -/

/-- A text that may be absent. -/
def optionalText? : Option Value → Option (Option String) :=
  Value.orDefault? (fun v => v.text?.map some) none

/-- A source of the kind with a name. -/
def sourceOf? (kind : String) (fields : Value) : Option SourceConfig :=
  if kind = "filesystem" then
    match fields.record? ["root", "follow_symlinks"] with
    | some [some root, follow] => do
      let root ← root.text?
      return .directory { root, followLinks := ← Value.orDefault? Value.flag? false follow }
    | _ => none
  else if kind = "git" then
    match fields.record? ["url", "staging_dir", "branch"] with
    | some [some url, some stagingDir, branch] => do
      return .git { url := ← url.text?, stagingDir := ← stagingDir.text?,
                    branch := ← optionalText? branch }
    | _ => none
  else if kind = "s3" then
    match fields.record? ["bucket", "prefix", "region", "endpoint_url"] with
    | some [some bucket, keyPrefix, region, endpoint] => do
      return .bucket { bucket := ← bucket.text?
                       keyPrefix := ← Value.orDefault? Value.text? "" keyPrefix
                       region := ← Value.orDefault? Value.text? "us-east-1" region
                       endpoint := ← optionalText? endpoint }
    | _ => none
  else none

/-- The largest number of fields of a source of the kind with a name. -/
def sourceWidth (kind : String) : Nat :=
  if kind = "filesystem" then 2 else if kind = "git" then 3 else 4

/-- A source: a table that holds its kind, or an array that starts with it and holds nothing past
the fields of that kind. -/
def source? : Value → Option SourceConfig
  | .table fields => do sourceOf? (← (← fields.lookup "kind").text?) (.table fields)
  | .array (kind :: rest) => do
    let kind ← kind.text?
    if rest.length ≤ sourceWidth kind then sourceOf? kind (.array rest) else none
  | _ => none

/-- Exclusion rules. -/
def rules? (v : Value) : Option ExclusionRules :=
  match v.record? ["extra_extensions", "extra_directories", "exclude_globs"] with
  | some [extensions, directories, globs] => do
    return { extensions := ← Value.orDefault? Value.texts? [] extensions
             directories := ← Value.orDefault? Value.texts? [] directories
             globs := ← Value.orDefault? Value.texts? [] globs }
  | _ => none

/-- The size of chunks. -/
def chunkSize? (v : Value) : Option Nat :=
  match v.record? ["chunk_size"] with
  | some [size] => Value.orDefault? (Value.natUpTo? Json.maxWord64) defaultChunkSize size
  | _ => none

/-- Generation settings. -/
def generation? (v : Value) : Option GenerationSettings :=
  let word := Value.natUpTo? Json.maxWord64
  match v.record? ["provider", "model", "base_url", "max_concurrency", "max_attempts",
      "backoff_ms", "timeout_secs", "hierarchical"] with
  | some [provider, model, baseUrl, concurrency, attempts, backoff, timeout, hierarchical] => do
    let dflt : GenerationSettings := {}
    return { provider := ← Value.orDefault? Value.text? dflt.provider provider
             model := ← Value.orDefault? Value.text? dflt.model model
             baseUrl := ← Value.orDefault? Value.text? dflt.baseUrl baseUrl
             maxConcurrency := ← Value.orDefault? word dflt.maxConcurrency concurrency
             maxAttempts :=
               ← Value.orDefault? (Value.natUpTo? Json.maxWord32) dflt.maxAttempts attempts
             backoff := ← Value.orDefault? word dflt.backoff backoff
             timeout := ← Value.orDefault? word dflt.timeout timeout
             hierarchical := ← Value.orDefault? Value.flag? dflt.hierarchical hierarchical }
  | _ => none

/-- Output paths. -/
def output? (v : Value) : Option OutputPaths :=
  match v.record? ["documentation", "corpus", "metadata", "structure"] with
  | some [documentation, corpus, metadata, tree] => do
    return { documentation := ← optionalText? documentation, corpus := ← optionalText? corpus
             metadata := ← optionalText? metadata, tree := ← optionalText? tree }
  | _ => none

/-- A configuration whose values are not checked. -/
def decode? (text : String) : Option Config := do
  let fields ← Toml.parse? text
  return { source := ← source? (← fields.lookup "source")
           rules := ← Value.orDefault? rules? {} (fields.lookup "classifier")
           chunkSize := ← Value.orDefault? chunkSize? defaultChunkSize (fields.lookup "chunking")
           generation := ← Value.orDefault? generation? {} (fields.lookup "generation")
           output := ← Value.orDefault? output? {} (fields.lookup "output") }

/-! ## Checks -/

/-- Whether a text is blank. -/
def isBlank (s : String) : Bool := s.toList.all Text.isBlank

/-- The first error in the values of a configuration. -/
def fault? (c : Config) : Option ConfigError :=
  let sourceFault? : Option ConfigError :=
    match c.source with
    | .directory _ => none
    | .git s => if isBlank s.url then some .emptyUrl else none
    | .bucket s => if isBlank s.bucket then some .emptyBucket else none
  if sourceFault?.isSome then sourceFault?
  else if c.chunkSize = 0 then some .zeroChunkSize
  else if c.generation.maxConcurrency = 0 then some .zeroConcurrency
  else if c.generation.maxAttempts = 0 then some .zeroAttempts
  else if c.generation.provider = "disabled" || c.generation.provider = "openai" then none
  else some (.unknownProvider c.generation.provider)

/-- The configuration that a text stands for. -/
def parse (text : String) : Except ConfigError Config :=
  match decode? text with
  | none => .error .malformed
  | some c =>
    match c.fault? with
    | some e => .error e
    | none => .ok c

end Config

end SourceDocs
