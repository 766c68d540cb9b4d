import SourceDocs.Classifier
import SourceDocs.DirectoryTree
import SourceDocs.Files.Walk
import SourceDocs.Metadata

set_option autoImplicit false

/-! # Scans of a local tree

Three readings of a directory tree: its source files with what was left out, the metadata of its
files, and its structure. All three leave out the directories that the classifier excludes, with
all that is below them; the directory that a scan starts at is never left out. -/

namespace SourceDocs

/-- The source files of a source, and what was left out. -/
structure Ingestion where
  files : List SourceFile := []
  skipped : List SkippedFile := []
  /-- The directory that the files lie in, if they lie in one. -/
  localRoot : Option String := none

namespace Scan

/-- Whether a classifier excludes directories of a name; one that is no text is never excluded. -/
def excludes (c : Classifier) : FileName → Bool
  | .text s => c.excludesDirectory s
  | .raw _ => false

/-- Names as a path. -/
def pathOf (names : List String) : String := "/".intercalate names

/-! ## Source files -/

/-- What becomes of a file, given its path and its content. -/
def examine (c : Classifier) (path : String) (content : ByteArray) :
    Except SkippedFile SourceFile :=
  match c.checkPath? path with
  | some reason => .error { path, reason }
  | none =>
    match Classifier.classify path content with
    | .ok file => .ok file
    | .error reason => .error { path, reason }

mutual

/-- What is found under a name, which is the last of `names`. -/
def findingsAt (c : Classifier) (names : List String) (name : FileName) :
    WalkNode → List (Except SkippedFile SourceFile)
  | .file content _ => [examine c (pathOf names) content]
  | .directory entries =>
    if excludes c name then
      [.error { path := pathOf names, reason := .excludedDirectory }]
    else findingsIn c names entries
  | .other => []
  | .broken => [.error { path := pathOf names, reason := .unreadable }]

/-- What is found in a directory below `names`. -/
def findingsIn (c : Classifier) (names : List String) :
    List (FileName × WalkNode) → List (Except SkippedFile SourceFile)
  | [] => []
  | (name, node) :: rest =>
    findingsAt c (names ++ [name.shown]) name node ++ findingsIn c names rest

end

/-- The findings that are files. -/
def kept (findings : List (Except SkippedFile SourceFile)) : List SourceFile :=
  findings.filterMap fun
    | .ok f => some f
    | .error _ => none

/-- The findings that are left out. -/
def left (findings : List (Except SkippedFile SourceFile)) : List SkippedFile :=
  findings.filterMap fun
    | .ok _ => none
    | .error s => some s

/-- The source files of a tree and what is left out, both sorted by path. -/
def ingest (c : Classifier) (tree : WalkTree) : List SourceFile × List SkippedFile :=
  let findings := findingsIn c [] tree
  ((kept findings).mergeSort fun a b => a.path ≤ b.path,
    (left findings).mergeSort fun a b => a.path ≤ b.path)

/-! ## Metadata -/

mutual

/-- The metadata found under a name, which is the last of `names`. -/
def metadataAt (c : Classifier) (names : List String) (name : FileName) :
    WalkNode → List (String × FileMetadata)
  | .file content modified =>
    [(pathOf names, { size := content.size, lastModified := modified })]
  | .directory entries => if excludes c name then [] else metadataIn c names entries
  | _ => []

/-- The metadata found in a directory below `names`. -/
def metadataIn (c : Classifier) (names : List String) :
    List (FileName × WalkNode) → List (String × FileMetadata)
  | [] => []
  | (name, node) :: rest =>
    metadataAt c (names ++ [name.shown]) name node ++ metadataIn c names rest

end

/-- The metadata of the files of a tree. -/
def metadata (c : Classifier) (tree : WalkTree) : MetadataStore :=
  .ofList (metadataIn c [] tree)

/-! ## Structure -/

mutual

/-- Adds what is found under a name, which is the last of `names`. -/
def structureAt (c : Classifier) (names : List String) (name : FileName) (t : DirectoryTree) :
    WalkNode → DirectoryTree
  | .directory entries =>
    if excludes c name then t else structureIn c names (t.addDirectory names) entries
  | .file _ _ => t.addFile names
  | .other => t.addFile names
  | .broken => t

/-- Adds what is found in a directory below `names`. -/
def structureIn (c : Classifier) (names : List String) (t : DirectoryTree) :
    List (FileName × WalkNode) → DirectoryTree
  | [] => t
  | (name, node) :: rest =>
    structureIn c names (structureAt c (names ++ [name.shown]) name t node) rest

end

/-- The structure of a tree. -/
def directoryTree (c : Classifier) (tree : WalkTree) : DirectoryTree :=
  structureIn c [] .empty tree

end Scan

end SourceDocs
