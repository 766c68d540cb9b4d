import SourceDocs.Program
import SourceDocs.MemoryHost

set_option autoImplicit false

/-! # The executable

The program on real files. Which files a directory holds is read from standard input, one path a
line. There is no network and no version control program: requests find no connection, and
repositories cannot be cloned. -/

namespace SourceDocs.Main

/-- What an action gives, or nothing if it fails. -/
def attempt {α : Type} (action : IO α) : IO (Option α) := do
  try return some (← action) catch _ => return none

/-- The lines of standard input. -/
partial def inputLines (input : IO.FS.Stream) (lines : List String) : IO (List String) := do
  let line ← input.getLine
  if line = "" then return lines.reverse else inputLines input (line :: lines)

/-- The files whose paths are listed. -/
def listedFiles (input : IO.FS.Stream) : IO FileSystem := do
  let mut files : FileSystem := {}
  for line in ← inputLines input [] do
    let path := Text.trim line
    match ← attempt (IO.FS.readBinFile path) with
    | some content =>
      files := files.install [] [{ path := FileName.segments path, node := .file content .epoch }]
    | none => pure ()
  return files

/-- The real surroundings, given the files that are listed once they have been asked for. -/
def host (input : IO.FS.Stream) (listed : IO.Ref (Option FileSystem)) : Host IO where
  readText path := attempt (IO.FS.readFile path)
  writeText path text := return (← attempt (IO.FS.writeFile path text)).isSome
  makeDirectories path := return (← attempt (IO.FS.createDirAll path)).isSome
  isFile path := return (← attempt (IO.FS.readBinFile path)).isSome
  pathExists path := return (← attempt (IO.FS.readBinFile path)).isSome
  walk path follow := do
    match ← listed.get with
    | some files => return files.walk? follow path
    | none =>
      let files ← listedFiles input
      listed.set (some files)
      return files.walk? follow path
  git _ _ := return none
  send _ := return .noConnection
  environment name := IO.getEnv name
  now := return .epoch
  sleep time := IO.sleep (UInt32.ofNat time)
  print line := IO.println line
  printProgress line := IO.eprintln line

end SourceDocs.Main

/-- Runs the program. -/
def main (args : List String) : IO UInt32 := do
  let listed ← IO.mkRef none
  let ending ← SourceDocs.Program.run (SourceDocs.Main.host (← IO.getStdin) listed) args
  match ending.errorText? with
  | some text => IO.eprintln text
  | none => pure ()
  return UInt32.ofNat ending.status
