import SourceDocs.Json.Decode
import SourceDocs.Path
import SourceDocs.SortedMap

set_option autoImplicit false

/-! # Directory trees

The directory structure of a source: names, each with the entries below it if it is a directory.
The names of each directory ascend. A name that is seen as a file and as a directory is a directory,
whichever came first, and nothing below it is lost. A tree is written as nested JSON objects in
which `null` stands for a file. -/

namespace SourceDocs

/-- What a name in a directory stands for. -/
inductive TreeEntry where
  | file
  | directory (entries : List (String × TreeEntry))

namespace TreeEntry

/-- The entries below a name that may be absent or stand for a file. -/
def contents : Option TreeEntry → List (String × TreeEntry)
  | some (directory entries) => entries
  | _ => []

mutual

/-- Whether two entries are equal. -/
def same : TreeEntry → TreeEntry → Bool
  | file, file => true
  | directory as, directory bs => sameEntries as bs
  | _, _ => false

/-- Whether two lists of entries are equal. -/
def sameEntries : List (String × TreeEntry) → List (String × TreeEntry) → Bool
  | [], [] => true
  | (n, a) :: as, (m, b) :: bs => n = m && same a b && sameEntries as bs
  | _, _ => false

end

mutual

/-- The entry as JSON. -/
def toJson : TreeEntry → Json
  | file => .null
  | directory entries => .object (fieldsOf entries)

/-- The fields that entries are written as. -/
def fieldsOf : List (String × TreeEntry) → List (String × Json)
  | [] => []
  | (name, e) :: rest => (name, toJson e) :: fieldsOf rest

end

mutual

/-- The entry that JSON stands for. -/
def ofJson? : Json → Option TreeEntry
  | .null => some file
  | .object fields => (ofFields? [] fields).map directory
  | _ => none

/-- The entries that fields stand for, on top of those read already; of two fields with one name
the later wins. -/
def ofFields? (entries : List (String × TreeEntry)) :
    List (String × Json) → Option (List (String × TreeEntry))
  | [] => some entries
  | (name, j) :: rest => do
    let e ← ofJson? j
    ofFields? (upsertEntry name (fun _ => e) entries) rest

end

end TreeEntry

/-- A directory. -/
structure DirectoryTree where
  entries : List (String × TreeEntry)

namespace DirectoryTree

/-- The directory without entries. -/
def empty : DirectoryTree := ⟨[]⟩

/-- Whether there are no entries. -/
def isEmpty (t : DirectoryTree) : Bool := t.entries.isEmpty

/-- The names of the entries. -/
def names (t : DirectoryTree) : List String := t.entries.map Prod.fst

instance : BEq DirectoryTree := ⟨fun a b => TreeEntry.sameEntries a.entries b.entries⟩

/-- Puts the directory that segments lead to into a list of entries. -/
def insertDirectory (entries : List (String × TreeEntry)) :
    List String → List (String × TreeEntry)
  | [] => entries
  | segment :: rest =>
    upsertEntry segment (fun e => .directory (insertDirectory (TreeEntry.contents e) rest)) entries

/-- Puts the file that segments lead to into a list of entries. -/
def insertFile (entries : List (String × TreeEntry)) : List String → List (String × TreeEntry)
  | [] => entries
  | [name] => upsertEntry name (fun e => e.getD .file) entries
  | segment :: rest =>
    upsertEntry segment (fun e => .directory (insertFile (TreeEntry.contents e) rest)) entries

/-- The tree with a directory and the directories above it. -/
def addDirectory (t : DirectoryTree) (segments : List String) : DirectoryTree :=
  ⟨insertDirectory t.entries segments⟩

/-- The tree with a file and the directories above it. -/
def addFile (t : DirectoryTree) (segments : List String) : DirectoryTree :=
  ⟨insertFile t.entries segments⟩

/-- The tree of files with the given paths; empty segments of a path do not count. -/
def ofPaths (paths : List String) : DirectoryTree :=
  paths.foldl (fun t p => t.addFile (Path.properSegments p)) empty

/-- The directory that segments lead to. -/
def descend? (t : DirectoryTree) : List String → Option DirectoryTree
  | [] => some t
  | segment :: rest =>
    match findEntry? segment t.entries with
    | some (.directory entries) => descend? ⟨entries⟩ rest
    | _ => none

/-- The directory with the given path; empty segments do not count. -/
def lookup? (t : DirectoryTree) (path : String) : Option DirectoryTree :=
  t.descend? (Path.properSegments path)

/-! ## Text -/

/-- The tree as JSON. -/
def toJson (t : DirectoryTree) : Json :=
  (TreeEntry.directory t.entries).toJson

/-- The text a tree is saved as. -/
def text (t : DirectoryTree) : String :=
  t.toJson.indentedText

/-- The tree that JSON stands for. -/
def ofJson? (j : Json) : Option DirectoryTree :=
  match TreeEntry.ofJson? j with
  | some (.directory entries) => some ⟨entries⟩
  | _ => none

/-- The tree that a text stands for. -/
def parse? (text : String) : Option DirectoryTree := do
  let j ← Json.parse? text
  if j.nesting ≤ Json.maxNesting then ofJson? j else none

/-- What is reported where the tree at `path` cannot be loaded. -/
def loadMessage (path : String) : String :=
  "Failed to load structure store: " ++ path

end DirectoryTree

end SourceDocs
