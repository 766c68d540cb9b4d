import SourceDocs.Context
import SourceDocs.Documentation
import SourceDocs.Generation
import SourceDocs.Progress

set_option autoImplicit false

/-! # Synthesis runs: many requests at once

A run makes one request for the documentation of every chunk and, if it is hierarchical, one for
its summary. When all of these have ended, a hierarchical run asks for one summary of all summaries,
and with that for one document of all documents.

The run is a state machine. `Run.next?` says what an event does to a run, and whether it is possible
at all; nothing is said about which of several possible events comes first. So what holds of every
list of events that a run can take holds under every order of completion, every delay of a reply
and every moment of cancellation. -/

namespace SourceDocs

/-- One request: about a chunk, or about the corpus. -/
structure Job where
  kind : ArtifactKind
  chunk : Option Chunk := none
  /-- The place of the chunk among all chunks. -/
  place : Nat := 0
  prompt : String

/-- Whether a request is not after another: those about earlier chunks come first, and of those
about one chunk the kind decides. -/
def Job.before (a b : Job) : Bool :=
  a.place < b.place || (a.place = b.place && a.kind.rank ≤ b.kind.rank)

/-- Where a request stands that has started and not ended. -/
inductive Phase where
  /-- Between calls, after `attempts` of them. -/
  | waiting (attempts : Nat)
  /-- The call number `attempts` is under way. -/
  | calling (attempts : Nat)
  deriving DecidableEq

/-- A request that has started and not ended. Requests are numbered in the order of the plan. -/
structure ActiveJob where
  number : Nat
  job : Job
  phase : Phase

/-- A request that has ended. -/
structure SettledJob where
  number : Nat
  job : Job
  outcome : Outcome

/-- What a run is to do. -/
structure SynthesisOptions where
  hierarchical : Bool
  /-- The number of requests that may be active at once. -/
  maxConcurrency : Nat
  policy : RetryPolicy

/-- The state of a run. -/
structure Run where
  options : SynthesisOptions
  /-- The number of requests about chunks. -/
  planned : Nat
  /-- Requests that have not started, in order. -/
  queued : List (Nat × Job)
  active : List ActiveJob := []
  /-- Requests that have ended, in the order in which they did. -/
  settled : List SettledJob := []
  /-- The requests that calls were made for, in the order of the calls. -/
  calls : List (Nat × Job) := []
  cancelled : Bool := false

namespace Run

/-! ## Planning -/

/-- The requests about the chunk at a place. -/
def jobsFor (hierarchical : Bool) (stores : ContextStores) (c : Chunk) (place : Nat) : List Job :=
  let ctx := stores.contextOf c
  { kind := .detailed, chunk := some c, place, prompt := Prompt.detailed c ctx } ::
    if hierarchical then
      [{ kind := .summary, chunk := some c, place, prompt := Prompt.summary c ctx }]
    else []

/-- The requests about all chunks. -/
def jobs (hierarchical : Bool) (chunks : List Chunk) (stores : ContextStores) : List Job :=
  chunks.zipIdx.flatMap fun (c, place) => jobsFor hierarchical stores c place

/-- Pairs each item of a list with its number. -/
def numbered {α : Type} (first : Nat) : List α → List (Nat × α)
  | [] => []
  | a :: as => (first, a) :: numbered (first + 1) as

/-- A run that has not started. -/
def start (options : SynthesisOptions) (chunks : List Chunk) (stores : ContextStores) : Run :=
  let js := jobs options.hierarchical chunks stores
  { options, planned := js.length, queued := numbered 0 js }

/-! ## Results -/

/-- Ended requests by the places of their chunks and by their kinds. -/
def inPlanOrder (ss : List SettledJob) : List SettledJob :=
  ss.mergeSort fun a b => a.job.before b.job

/-- Requests that have ended: those about chunks in the order of the plan, then those about the
corpus as they ended. -/
def ordered (r : Run) : List SettledJob :=
  inPlanOrder (r.settled.take r.planned) ++ r.settled.drop r.planned

/-- The texts that requests of one kind gave, in the order of the plan. -/
def textsOf (r : Run) (kind : ArtifactKind) : List String :=
  r.ordered.filterMap fun s =>
    match s.outcome with
    | .ok text => if s.job.kind = kind then some text else none
    | .error _ => none

/-- The request about the corpus that is due when no other is left. -/
def nextReduction? (r : Run) : Option Job :=
  if r.options.hierarchical then
    match r.settled.drop r.planned with
    | [] =>
      match r.textsOf .summary with
      | [] => none
      | summaries =>
        some { kind := .combinedSummary, prompt := Prompt.combinedSummary summaries }
    | [{ outcome := .ok highLevel, .. }] =>
      some { kind := .combined, prompt := Prompt.combined highLevel (r.textsOf .detailed) }
    | _ => none
  else none

/-- The artifact that a request gave. -/
def artifact? (s : SettledJob) : Option Artifact :=
  match s.outcome with
  | .ok text =>
    some { kind := s.job.kind, chunk := s.job.chunk.map Chunk.id,
           language := s.job.chunk.map Chunk.language, text }
  | .error _ => none

/-- The failure that a request ended in. -/
def failure? (s : SettledJob) : Option Failure :=
  match s.outcome with
  | .ok _ => none
  | .error f =>
    some { kind := s.job.kind, chunk := s.job.chunk.map Chunk.id, attempts := f.attempts,
           cause := f.error.message }

/-- The failure of a hierarchical run without any summary. -/
def noSummaries : Failure :=
  { kind := .combinedSummary, attempts := 0, cause := "no chunk summaries available" }

/-- What the requests gave, in the order of the plan. -/
def artifacts (r : Run) : List Artifact :=
  r.ordered.filterMap artifact?

/-- What went wrong, in the order of the plan. -/
def failures (r : Run) : List Failure :=
  r.ordered.filterMap failure? ++
    if r.options.hierarchical && (r.textsOf .summary).isEmpty then [noSummaries] else []

/-- The progress that requests tell which end one after the other, `ended` about chunks before them:
each about a chunk counts, and each about the corpus stands alone. -/
def progressOf (planned : Nat) : Nat → List SettledJob → List ProgressEvent
  | _, [] => []
  | ended, s :: rest =>
    if s.job.chunk.isSome then
      .generating "chunks" (ended + 1) planned :: progressOf planned (ended + 1) rest
    else .generating s.job.kind.label 1 1 :: progressOf planned ended rest

/-- The progress that has been told. -/
def progress (r : Run) : List ProgressEvent := progressOf r.planned 0 r.settled

/-! ## Events -/

/-- What can happen to a run. -/
inductive Event where
  /-- The first request in the queue starts. -/
  | begin
  /-- The wait of a request is over. -/
  | resume (number : Nat)
  /-- The call of a request is answered. -/
  | reply (number : Nat) (reply : Reply)
  /-- The run is cancelled. -/
  | cancel
  /-- The next request about the corpus is queued. -/
  | reduce

/-- The active request with a number. -/
def find? (r : Run) (number : Nat) : Option ActiveJob :=
  r.active.find? fun a => a.number = number

/-- The run with another phase of an active request. -/
def setPhase (r : Run) (number : Nat) (phase : Phase) : Run :=
  { r with active := r.active.map fun a => if a.number = number then { a with phase } else a }

/-- The run with an active request ended. -/
def settle (r : Run) (a : ActiveJob) (outcome : Outcome) : Run :=
  { r with
    active := r.active.filter fun b => b.number ≠ a.number
    settled := r.settled ++ [{ number := a.number, job := a.job, outcome }] }

/-- The run after an event; none if the event is not possible. -/
def next? (r : Run) : Event → Option Run
  | .begin =>
    match r.queued with
    | [] => none
    | (number, job) :: queued =>
      if r.active.length < r.options.maxConcurrency then
        some { r with queued, active := r.active ++ [{ number, job, phase := .waiting 0 }] }
      else none
  | .resume number =>
    match r.find? number with
    | some a =>
      match a.phase with
      | .waiting attempts =>
        if r.cancelled then some (r.settle a (.error ⟨.cancelled, attempts⟩))
        else
          some { r.setPhase number (.calling (attempts + 1)) with
                 calls := r.calls ++ [(number, a.job)] }
      | .calling _ => none
    | none => none
  | .reply number reply =>
    match r.find? number with
    | some a =>
      match a.phase with
      | .calling attempts =>
        match reply with
        | .ok text => some (r.settle a (.ok text))
        | .error e =>
          if r.options.policy.goesOn attempts e then
            some (r.setPhase number (.waiting attempts))
          else some (r.settle a (.error ⟨e, attempts⟩))
      | .waiting _ => none
    | none => none
  | .cancel => some { r with cancelled := true }
  | .reduce =>
    if r.queued.isEmpty && r.active.isEmpty then
      r.nextReduction?.map fun job => { r with queued := [(r.settled.length, job)] }
    else none

/-- The run after a list of events; none if one of them is not possible. -/
def after? (r : Run) : List Event → Option Run
  | [] => some r
  | e :: es => (r.next? e).bind fun r => r.after? es

/-- Whether nothing is left to do. -/
def isComplete (r : Run) : Bool :=
  r.queued.isEmpty && r.active.isEmpty && r.nextReduction?.isNone

end Run

end SourceDocs
