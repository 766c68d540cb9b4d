import SourceDocs.Classifier
import SourceDocs.Language

set_option autoImplicit false

/-! # Chunks: the pieces of files that are documented

A file is cut into pieces of equally many characters, the last one possibly shorter; an empty file
has none. `ChunkPlan.chunks` gives all pieces; a `ChunkCursor` gives them one at a time, and any
number of cursors may go over one plan at once. -/

namespace SourceDocs

/-- Which piece of which file. -/
structure ChunkId where
  path : String
  index : Nat
  deriving DecidableEq

instance : ToString ChunkId := ⟨fun id => id.path ++ "#" ++ toString id.index⟩

/-- A piece of a file. -/
structure Chunk where
  path : String
  language : Language
  content : String
  index : Nat
  deriving DecidableEq

/-- The identity of a chunk. -/
def Chunk.id (c : Chunk) : ChunkId := { path := c.path, index := c.index }

/-- The size of chunks where none is configured. -/
def defaultChunkSize : Nat := 4000

/-- How a file is cut. -/
structure ChunkPlan where
  path : String
  language : Language
  content : String
  /-- The number of characters of a chunk. -/
  size : Nat
  size_pos : 0 < size

/-- A place between two chunks of a file. -/
structure ChunkCursor where
  /-- What is left of the content. -/
  rest : List Char
  /-- The number of bytes that `rest` comes after. -/
  offset : Nat
  /-- The number of chunks that `rest` comes after. -/
  index : Nat

namespace ChunkPlan

/-- The plan for a file with a configured size, of which zero stands for the default. -/
def ofFile (file : SourceFile) (language : Language) (size : Nat) : ChunkPlan :=
  { path := file.path, language, content := file.content
    size := if size = 0 then defaultChunkSize else size
    size_pos := by
      split
      · decide
      · omega }

/-- The place before the first chunk. -/
def start (plan : ChunkPlan) : ChunkCursor :=
  { rest := plan.content.toList, offset := 0, index := 0 }

/-- The chunk after a place and the place after that chunk. -/
def next? (plan : ChunkPlan) (c : ChunkCursor) : Option (Chunk × ChunkCursor) :=
  match c.rest with
  | [] => none
  | _ :: _ =>
    let piece := String.ofList (c.rest.take plan.size)
    some ({ path := plan.path, language := plan.language, content := piece, index := c.index },
      { rest := c.rest.drop plan.size, offset := c.offset + piece.utf8ByteSize,
        index := c.index + 1 })

theorem next?_rest_lt {plan : ChunkPlan} {c c' : ChunkCursor} {chunk : Chunk}
    (h : plan.next? c = some (chunk, c')) : c'.rest.length < c.rest.length := by
  unfold next? at h
  split at h
  · cases h
  · rename_i x xs hrest
    cases h
    have := plan.size_pos
    simp only [hrest, List.length_drop, List.length_cons]
    omega

/-- The chunks after a place. -/
def chunksFrom (plan : ChunkPlan) (c : ChunkCursor) : List Chunk :=
  match _h : plan.next? c with
  | none => []
  | some (chunk, c') => chunk :: plan.chunksFrom c'
  termination_by c.rest.length
  decreasing_by exact next?_rest_lt _h

/-- All chunks of a file in order. -/
def chunks (plan : ChunkPlan) : List Chunk :=
  plan.chunksFrom plan.start

/-! ## Several cursors over one plan -/

/-- What can be done with the cursors over a plan. -/
inductive Step where
  /-- Puts a new cursor before the first chunk. -/
  | create
  /-- Moves the cursor with this number over a chunk. -/
  | advance (cursor : Nat)

/-- What a step answers. -/
inductive StepAnswer where
  | created
  /-- The chunk that was moved over; none at the end and for a cursor that there is not. -/
  | chunk (c : Option Chunk)

/-- One step with the cursors over a plan. -/
def step (plan : ChunkPlan) (cursors : List ChunkCursor) : Step → StepAnswer × List ChunkCursor
  | .create => (.created, cursors ++ [plan.start])
  | .advance i =>
    match cursors[i]?.bind plan.next? with
    | some (chunk, c) => (.chunk (some chunk), cursors.set i c)
    | none => (.chunk none, cursors)

/-- The answers to a list of steps, beginning without cursors. -/
def run (plan : ChunkPlan) (steps : List Step) : List StepAnswer :=
  go [] steps
where
  /-- The answers to a list of steps, beginning with the given cursors. -/
  go (cursors : List ChunkCursor) : List Step → List StepAnswer
    | [] => []
    | s :: rest =>
      let (answer, cursors) := plan.step cursors s
      answer :: go cursors rest

end ChunkPlan

end SourceDocs
