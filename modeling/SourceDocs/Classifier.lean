import SourceDocs.Glob
import SourceDocs.Path
import SourceDocs.Text.Blank

set_option autoImplicit false

/-! # Which files are source files

A file is left out if any of four checks rejects it. Three look at the path alone, in this order:
the extension (ASCII letters in either case), the name of a directory on the way (whole segments
only), the configured globs. The last looks at the content: it has to be text whose first line opens
neither a script nor an XML document. -/

namespace SourceDocs

/-- A file of the corpus: a slash-separated path, relative to where the corpus comes from, and the
text of the file. -/
structure SourceFile where
  path : String
  content : String
  deriving DecidableEq

/-- Why a file was left out. -/
inductive SkipReason where
  | excludedExtension
  | excludedDirectory
  | excludedGlob
  | shebang
  | xmlProlog
  | notUtf8
  | unreadable
  deriving DecidableEq

namespace SkipReason

/-- All reasons. -/
def all : List SkipReason :=
  [excludedExtension, excludedDirectory, excludedGlob, shebang, xmlProlog, notUtf8, unreadable]

/-- The reason as one word. -/
def label : SkipReason → String
  | excludedExtension => "excluded_extension"
  | excludedDirectory => "excluded_directory"
  | excludedGlob => "excluded_glob"
  | shebang => "shebang"
  | xmlProlog => "xml_prolog"
  | notUtf8 => "not_utf8"
  | unreadable => "unreadable"

/-- The reason a word stands for. -/
def ofLabel? (s : String) : Option SkipReason :=
  all.find? fun r => r.label = s

end SkipReason

/-- A file that was left out. -/
structure SkippedFile where
  path : String
  reason : SkipReason
  deriving DecidableEq

/-- What is left out on top of what always is. -/
structure ExclusionRules where
  extensions : List String := []
  directories : List String := []
  globs : List String := []

/-- Decides which files belong to the corpus. -/
structure Classifier where
  /-- Extensions in lower case, each with its leading dot. -/
  extensions : List String
  directories : List String
  globs : List Glob

namespace Classifier

/-- Extensions of compiled files, binaries and logs. -/
def alwaysExtensions : List String :=
  [".pyc", ".pyo", ".exe", ".dll", ".so", ".dylib", ".bin", ".dat", ".log"]

/-- Directories whose contents are never documented. -/
def alwaysDirectories : List String :=
  ["venv", "node_modules", "__pycache__", "_pycache_", ".git", ".idea"]

/-- An extension in lower case and with a leading dot. -/
def normalExtension (ext : String) : String :=
  (if ext.toList.head? = some '.' then ext else "." ++ ext).toLower

/-- The classifier for some rules, unless one of their globs is malformed. -/
def ofRules (rules : ExclusionRules) : Except Glob.Error Classifier := do
  let globs ← rules.globs.mapM Glob.parse
  return {
    extensions := alwaysExtensions ++ rules.extensions.map normalExtension
    directories := alwaysDirectories ++ rules.directories
    globs }

/-- Whether a directory of this name is left out. -/
def excludesDirectory (c : Classifier) (name : String) : Bool :=
  c.directories.contains name

/-- Whether the extension of a path is one that is left out. -/
def excludesExtension (c : Classifier) (path : String) : Bool :=
  (Path.extension? path).any fun ext => c.extensions.contains ("." ++ ext.toLower)

/-- Why a path is left out, if it is. -/
def checkPath? (c : Classifier) (path : String) : Option SkipReason :=
  if c.excludesExtension path then some .excludedExtension
  else if (Path.segments path).any c.excludesDirectory then some .excludedDirectory
  else if c.globs.any fun g => g.matches? path then some .excludedGlob
  else none

/-- Why a text is left out, if it is. -/
def sniff? (content : String) : Option SkipReason :=
  let line := Text.trimStart ((Text.firstLine? content.toList).getD [])
  if "#!".toList.isPrefixOf line then some .shebang
  else if "<?xml".toList.isPrefixOf line then some .xmlProlog
  else none

/-- The source file of a path and the bytes found there, or why it is none. -/
def classify (path : String) (bytes : ByteArray) : Except SkipReason SourceFile :=
  match Text.decode? bytes with
  | none => .error .notUtf8
  | some content =>
    match sniff? content with
    | some reason => .error reason
    | none => .ok { path, content }

end Classifier

end SourceDocs
