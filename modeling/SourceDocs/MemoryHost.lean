import SourceDocs.Files.System
import SourceDocs.Host
import SourceDocs.Json.Decode
import SourceDocs.Script

set_option autoImplicit false

/-! # Hosts in memory

A host in memory has files, environment variables, a scripted HTTP service and a scripted version
control program. It keeps what was asked of these and what was printed, and its clock stands
still. -/

namespace SourceDocs

/-- A file, a directory or a link to be put somewhere. -/
structure FileItem where
  path : List FileName
  node : FileNode

/-- What a scripted version control program does. -/
structure GitScript where
  /-- What a checkout consists of. -/
  payload : List FileItem
  clone : GitResult
  fetch : GitResult
  reset : GitResult

/-- A run of the version control program: where, and with which arguments. -/
structure GitCall where
  directory : List FileName
  arguments : List String

/-- What a scripted HTTP service answers. -/
structure ServiceScript where
  /-- To requests for listings, in order. -/
  pages : List HttpReply := []
  /-- To other GET requests, by target. -/
  objects : List (String × HttpReply) := []
  /-- To POST requests, by prompt. -/
  chat : Script HttpReply := { rules := [] }

/-- A host in memory. -/
structure MemoryHost where
  files : FileSystem := {}
  git : Option GitScript := none
  gitCalls : List GitCall := []
  environment : List (String × String) := []
  service : ServiceScript := {}
  requests : List HttpRequest := []
  output : List String := []
  progress : List String := []

namespace FileSystem

/-- Puts items into a directory, one after the other. -/
def install (fs : FileSystem) (here : List FileName) (items : List FileItem) : FileSystem :=
  items.foldl (fun fs i => (fs.create? here i.path i.node).getD fs) fs

end FileSystem

namespace ServiceScript

/-- A reply whose body, if the status allows one, is a text. -/
def textReply (status : Nat) (text : String) : HttpReply :=
  .response status text.toUTF8

/-- The prompt that the body of a request holds. -/
def promptOf (body : String) : String :=
  let prompt? := do
    let message ← (← (← Json.parse? body).get? "messages").item? 0
    (← message.get? "content").text?
  prompt?.getD ""

/-- What a chat service answers with a text. -/
def chatReply (text : String) : HttpReply :=
  textReply 200 (Json.object [("choices", .array [.object [("message",
    .object [("content", .string text)])]])]).compactText

/-- A reply as it arrives: one without content has no body. -/
def delivered : HttpReply → HttpReply
  | .response status body => .response status (if status = 204 then .empty else body)
  | reply => reply

/-- The reply to a request and the service after it. -/
def reply (s : ServiceScript) (r : HttpRequest) : HttpReply × ServiceScript :=
  match r.method with
  | .get =>
    if Script.occursIn "list-type=".toList r.target.toList then
      match s.pages with
      | page :: pages => (delivered page, { s with pages })
      | [] => (textReply 500 "", s)
    else (delivered ((s.objects.lookup r.target).getD (textReply 404 "")), s)
  | .post =>
    let prompt := promptOf r.body
    match s.chat.pick? prompt with
    | some (reply, chat) => (delivered reply, { s with chat })
    | none => (chatReply (Script.echo prompt), s)

end ServiceScript

namespace MemoryHost

/-- Runs the scripted version control program. -/
def runGit (s : MemoryHost) (path : String) (arguments : List String) :
    Option GitResult × MemoryHost :=
  match s.git with
  | none => (none, s)
  | some script =>
    let here := if path = "" then some [] else s.files.resolve? path
    match here with
    | none => (none, s)
    | some here =>
      let s := { s with gitCalls := s.gitCalls ++ [{ directory := here, arguments }] }
      match arguments.head? with
      | some "clone" =>
        let place := arguments.getLastD ""
        if script.clone.success then
          match s.files.makeDirectories? place with
          | some files =>
            let there := (files.resolve? place).getD []
            (some script.clone, { s with files := files.install there script.payload })
          | none => (some script.clone, s)
        else (some script.clone, s)
      | some "fetch" => (some script.fetch, s)
      | some "reset" =>
        (some script.reset,
          if script.reset.success then { s with files := s.files.install here script.payload }
          else s)
      | _ => (some { success := true, errors := "" }, s)

/-- The host as a state that its own operations change. -/
def host : Host (StateM MemoryHost) where
  readText path s := ((s.files.read? path).bind Text.decode?, s)
  writeText path text s :=
    match s.files.write? path text.toUTF8 .epoch with
    | some files => (true, { s with files })
    | none => (false, s)
  makeDirectories path s :=
    match s.files.makeDirectories? path with
    | some files => (true, { s with files })
    | none => (false, s)
  isFile path s := (s.files.isFile path, s)
  pathExists path s := ((s.files.resolve? path).isSome, s)
  walk path follow s := (s.files.walk? follow path, s)
  git path arguments s := s.runGit path arguments
  send r s :=
    let (reply, service) := s.service.reply r
    (reply, { s with service, requests := s.requests ++ [r] })
  environment name s := (s.environment.lookup name, s)
  now s := (.epoch, s)
  sleep _ s := ((), s)
  print line s := ((), { s with output := s.output ++ [line] })
  printProgress line s := ((), { s with progress := s.progress ++ [line] })

end MemoryHost

end SourceDocs
