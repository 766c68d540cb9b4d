import SourceDocs.Language.Detection
import SourceDocs.Records
import SourceDocs.SortedMap

set_option autoImplicit false

/-! # The corpus: source files grouped by language

A `Corpus` holds the files of each language in the order in which they came. Languages are in label
order, so files of no known language come last. A snapshot of a corpus is an indented JSON object
with one field a language, whose value lists pairs of a path and a content. -/

namespace SourceDocs

/-- Source files by language. -/
structure Corpus where
  groups : SortedMap Language (List SourceFile)

namespace Corpus

/-- The corpus without files. -/
def empty : Corpus := ⟨.empty⟩

/-- The corpus with one more file. -/
def push (c : Corpus) (language : Language) (file : SourceFile) : Corpus :=
  ⟨c.groups.upsert language fun files => files.getD [] ++ [file]⟩

/-- The corpus of files whose languages `languageOf` tells. -/
def organizeBy (languageOf : SourceFile → Language) (files : List SourceFile) : Corpus :=
  files.foldl (fun c f => c.push (languageOf f) f) empty

/-- The corpus of files whose languages are detected. -/
def organize (files : List SourceFile) : Corpus :=
  organizeBy (fun f => Language.detect f.path f.content) files

/-- The files of a language. -/
def files (c : Corpus) (language : Language) : List SourceFile :=
  (c.groups.get? language).getD []

/-- The number of files. -/
def fileCount (c : Corpus) : Nat :=
  c.groups.total List.length

/-- The number of languages. -/
def languageCount (c : Corpus) : Nat := c.groups.size

/-- Whether there is no language. -/
def isEmpty (c : Corpus) : Bool := c.groups.entries.isEmpty

/-- All files with their languages, in corpus order. -/
def labelled (c : Corpus) : List (Language × SourceFile) :=
  c.groups.entries.flatMap fun g => g.2.map fun f => (g.1, f)

/-- The chunks of all files, in corpus order; a size of zero stands for the default. -/
def chunks (c : Corpus) (size : Nat) : List Chunk :=
  c.labelled.flatMap fun (language, file) => (ChunkPlan.ofFile file language size).chunks

/-! ## Elements -/

/-- The elements of every file that has some, by path; of two files with one path the later wins. -/
def elements (c : Corpus) : SortedMap String ElementSet :=
  .ofList (c.labelled.filterMap fun (language, file) =>
    (extractElements? language file.content).map fun e => (file.path, e))

/-- The files of languages without an extractor. -/
def unsupported (c : Corpus) : List (String × Language) :=
  c.labelled.filterMap fun (language, file) =>
    match extractElements? language file.content with
    | some _ => none
    | none => some (file.path, language)

/-- The elements of a corpus as JSON. -/
def elementsJson (elements : SortedMap String ElementSet) : Json :=
  .object (elements.entries.map fun e => (e.1, e.2.toJson))

/-! ## Snapshots -/

/-- A file as a pair of its path and its content. -/
def pairJson (f : SourceFile) : Json :=
  .array [.string f.path, .string f.content]

/-- The file that a pair stands for. -/
def ofPairJson? : Json → Option SourceFile
  | .array [path, content] => do return { path := ← path.text?, content := ← content.text? }
  | _ => none

/-- The corpus as JSON. -/
def toJson (c : Corpus) : Json :=
  .object (c.groups.entries.map fun g => (g.1.name, .array (g.2.map pairJson)))

/-- The corpus that JSON stands for; of two fields for one language the later wins. -/
def ofJson? (j : Json) : Option Corpus := do
  let groups ← j.entries? (Json.list? ofPairJson?)
  return ⟨.ofList (groups.map fun g => (Language.ofName g.1, g.2))⟩

/-- The text of a snapshot. -/
def snapshot (c : Corpus) : String := c.toJson.indentedText

/-- The corpus that a snapshot holds. -/
def ofSnapshot? (text : String) : Option Corpus :=
  (Json.parse? text).bind ofJson?

/-- What is reported where the snapshot at `path` cannot be loaded. -/
def loadMessage (path : String) : String :=
  "Failed to load corpus snapshot: " ++ path

end Corpus

end SourceDocs
