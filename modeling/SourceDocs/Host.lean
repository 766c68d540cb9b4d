import SourceDocs.Files.Walk
import SourceDocs.Http

set_option autoImplicit false

/-! # Hosts: what a program needs from its surroundings

Everything that the library does outside of its own definitions goes through a `Host`. A host over a
state gives pure runs; a host over the real world gives a program. -/

namespace SourceDocs

/-- How a run of the version control program ended. -/
structure GitResult where
  /-- Whether it reported success. -/
  success : Bool
  /-- What it wrote about errors. -/
  errors : String

/-- The surroundings of a program. -/
structure Host (m : Type → Type) where
  /-- The text of a file; none if it cannot be read as text. -/
  readText : String → m (Option String)
  /-- Writes a file; false if that is not possible. -/
  writeText : String → String → m Bool
  /-- Makes a directory and those above it; false if that is not possible. -/
  makeDirectories : String → m Bool
  /-- Whether there is a file. -/
  isFile : String → m Bool
  /-- Whether there is anything. -/
  pathExists : String → m Bool
  /-- What a walk finds in a directory, following links or not; none if there is no directory. -/
  walk : String → Bool → m (Option WalkTree)
  /-- Runs the version control program in a directory; none if it cannot be started. -/
  git : String → List String → m (Option GitResult)
  /-- Sends a request. -/
  send : HttpRequest → m HttpReply
  /-- The value of an environment variable. -/
  environment : String → m (Option String)
  /-- The time. -/
  now : m Instant
  /-- Lets a number of milliseconds go by. -/
  sleep : Nat → m Unit
  /-- Writes a line of output. -/
  print : String → m Unit
  /-- Writes a line about the progress. -/
  printProgress : String → m Unit

end SourceDocs
