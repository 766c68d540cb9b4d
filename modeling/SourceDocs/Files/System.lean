import SourceDocs.Files.Walk

set_option autoImplicit false

/-! # A file system in memory

Directories, files and symbolic links below one working directory. Paths are relative to that and
are resolved as an operating system does: each link on the way is followed, `..` leads to the
directory above the one reached, and nothing lies above or beside the working directory. -/

namespace SourceDocs

/-- What a name in a directory stands for. -/
inductive FileNode where
  | file (content : ByteArray) (modified : Instant)
  | directory (entries : List (FileName × FileNode))
  | link (target : String)

/-- The working directory. -/
structure FileSystem where
  entries : List (FileName × FileNode) := []

namespace FileNode

mutual

/-- The number of directories in a node. -/
def directories : FileNode → Nat
  | directory entries => directoriesIn entries + 1
  | _ => 0

/-- The number of directories in a list of entries. -/
def directoriesIn : List (FileName × FileNode) → Nat
  | [] => 0
  | (_, n) :: rest => directories n + directoriesIn rest

end

/-- Puts a node under a name, in place of what was there. -/
def put (name : FileName) (node : FileNode) :
    List (FileName × FileNode) → List (FileName × FileNode)
  | [] => [(name, node)]
  | e :: rest => if e.1 = name then (name, node) :: rest else e :: put name node rest

/-- Puts a node at the end of a list of names, in directories that are there. -/
def putAt (node : FileNode) (entries : List (FileName × FileNode)) :
    List FileName → List (FileName × FileNode)
  | [] => entries
  | [name] => put name node entries
  | name :: rest =>
    match entries.lookup name with
    | some (directory inner) => put name (directory (putAt node inner rest)) entries
    | _ => entries

/-- The node at the end of a list of names; links are not followed. -/
def at? : List FileName → FileNode → Option FileNode
  | [], node => some node
  | name :: rest, directory entries => (entries.lookup name).bind (at? rest)
  | _ :: _, _ => none

end FileNode

namespace FileSystem

/-- The node at the end of a list of names; links are not followed. -/
def at? (fs : FileSystem) (names : List FileName) : Option FileNode :=
  FileNode.at? names (.directory fs.entries)

/-- The file system with a node at the end of a list of names. -/
def putAt (fs : FileSystem) (names : List FileName) (node : FileNode) : FileSystem :=
  ⟨FileNode.putAt node fs.entries names⟩

/-- The number of links that are followed on the way to one file. -/
def maxLinks : Nat := 40

/-- Whether a path starts at the working directory. -/
def isRelative (path : String) : Bool :=
  match path.toList with
  | [] => false
  | c :: _ => c ≠ '/'

/-- Where the segments of a path lead from a directory. The result is the list of names of a node
that is no link; the first argument is the number of links that may still be followed. -/
def resolveFrom? (fs : FileSystem) (links : Nat) (here : List FileName) :
    List FileName → Option (List FileName)
  | [] => some here
  | .text "" :: rest => resolveFrom? fs links here rest
  | .text "." :: rest => resolveFrom? fs links here rest
  | .text ".." :: rest => if here.isEmpty then none else resolveFrom? fs links here.dropLast rest
  | name :: rest =>
    match fs.at? (here ++ [name]) with
    | none => none
    | some (.directory _) => resolveFrom? fs links (here ++ [name]) rest
    | some (.file _ _) => if rest.isEmpty then some (here ++ [name]) else none
    | some (.link target) =>
      match links with
      | 0 => none
      | links + 1 =>
        if isRelative target then resolveFrom? fs links here (FileName.segments target ++ rest)
        else none
  termination_by segments => (links, segments.length)

/-- Where a path leads. -/
def resolve? (fs : FileSystem) (path : String) : Option (List FileName) :=
  if isRelative path then fs.resolveFrom? maxLinks [] (FileName.segments path) else none

/-- What a path leads to. -/
def find? (fs : FileSystem) (path : String) : Option FileNode :=
  (fs.resolve? path).bind fs.at?

/-- Whether a path leads to a file. -/
def isFile (fs : FileSystem) (path : String) : Bool :=
  match fs.find? path with
  | some (.file _ _) => true
  | _ => false

/-- The content of the file that a path leads to. -/
def read? (fs : FileSystem) (path : String) : Option ByteArray :=
  match fs.find? path with
  | some (.file content _) => some content
  | _ => none

/-! ## Changes -/

/-- Makes the directories on the way along the segments of a path, as far as they are missing. The
result names the last of them as well; none if something else is in the way. -/
def makeDirectoriesFrom? (fs : FileSystem) (here : List FileName) :
    List FileName → Option (FileSystem × List FileName)
  | [] => some (fs, here)
  | segment :: rest =>
    match fs.resolveFrom? maxLinks here [segment] with
    | some there =>
      match fs.at? there with
      | some (.directory _) => makeDirectoriesFrom? fs there rest
      | _ => none
    | none =>
      match segment, fs.at? (here ++ [segment]) with
      | .text "..", _ => none
      | _, some _ => none
      | _, none =>
        makeDirectoriesFrom? (fs.putAt (here ++ [segment]) (.directory [])) (here ++ [segment]) rest

/-- Makes the directory that a path names and those above it. -/
def makeDirectories? (fs : FileSystem) (path : String) : Option FileSystem :=
  if path = "" then some fs
  else if isRelative path then
    (fs.makeDirectoriesFrom? [] (FileName.segments path)).map Prod.fst
  else none

/-- Where a file would be put that is written at the end of the segments of a path. Names lead on as
in `resolveFrom?`, but the last may stand for nothing yet, and it may not stand for a directory. -/
def placeFrom? (fs : FileSystem) (links : Nat) (here : List FileName) :
    List FileName → Option (List FileName)
  | [] => none
  | .text "" :: rest => placeFrom? fs links here rest
  | .text "." :: rest => placeFrom? fs links here rest
  | .text ".." :: rest => if here.isEmpty then none else placeFrom? fs links here.dropLast rest
  | name :: rest =>
    match fs.at? (here ++ [name]) with
    | some (.directory _) => placeFrom? fs links (here ++ [name]) rest
    | some (.link target) =>
      match links with
      | 0 => none
      | links + 1 =>
        if isRelative target then placeFrom? fs links here (FileName.segments target ++ rest)
        else none
    | _ => if rest.isEmpty then some (here ++ [name]) else none
  termination_by segments => (links, segments.length)

/-- Writes a file at the end of the segments of a path. -/
def writeFrom? (fs : FileSystem) (segments : List FileName) (content : ByteArray)
    (modified : Instant) : Option FileSystem :=
  (fs.placeFrom? maxLinks [] segments).map fun place => fs.putAt place (.file content modified)

/-- Writes a file. -/
def write? (fs : FileSystem) (path : String) (content : ByteArray) (modified : Instant) :
    Option FileSystem :=
  if isRelative path then fs.writeFrom? (FileName.segments path) content modified else none

/-- Puts a node where the segments of a path lead from a directory, and makes the directories on the
way. A directory that is there already stays as it is. -/
def create? (fs : FileSystem) (here segments : List FileName) (node : FileNode) :
    Option FileSystem := do
  let name ← segments.getLast?
  let (fs, above) ← fs.makeDirectoriesFrom? here segments.dropLast
  match node, fs.at? (above ++ [name]) with
  | .directory _, some (.directory _) => return fs
  | .file content modified, some (.link _) => fs.writeFrom? (above ++ [name]) content modified
  | _, _ => return fs.putAt (above ++ [name]) node

/-! ## Walks -/

/-- What a walk finds at a node with the given names. `above` holds the directories on the way to
it; a link to one of them is not followed. The first argument bounds the depth. -/
def walkNode (fs : FileSystem) (follow : Bool) :
    Nat → List (List FileName) → List FileName → FileNode → WalkNode
  | _, _, _, .file content modified => .file content modified
  | 0, _, _, _ => .broken
  | depth + 1, above, here, .directory entries =>
    .directory (entries.map fun e =>
      (e.1, walkNode fs follow depth (here :: above) (here ++ [e.1]) e.2))
  | depth + 1, above, here, .link target =>
    if !follow then .other
    else if !isRelative target then .broken
    else
      match fs.resolveFrom? maxLinks here.dropLast (FileName.segments target) with
      | none => .broken
      | some there =>
        match fs.at? there with
        | some (.directory entries) =>
          if above.contains there then .broken
          else
            .directory (entries.map fun e =>
              (e.1, walkNode fs follow depth (there :: above) (there ++ [e.1]) e.2))
        | some (.file content modified) => .file content modified
        | _ => .broken

/-- A depth that no walk exceeds: it follows each link to another directory, and between two links
goes down from one directory to the next. -/
def depthBound (fs : FileSystem) : Nat :=
  let levels := FileNode.directoriesIn fs.entries + 2
  levels * levels

/-- What a walk finds in the directory that a path leads to. -/
def walk? (fs : FileSystem) (follow : Bool) (path : String) : Option WalkTree := do
  let here ← fs.resolve? path
  match fs.at? here with
  | some (.directory entries) =>
    return entries.map fun e => (e.1, fs.walkNode follow fs.depthBound [here] (here ++ [e.1]) e.2)
  | _ => none

end FileSystem

end SourceDocs
