import SourceDocs.Retry
import SourceDocs.Synthesis.Run

set_option autoImplicit false

/-! # Runs under a clock

`Run.drive` takes a run from its start to its end under a clock that only waits and calls move. The
events come in a fixed order: a request starts as soon as there is room for it, one that can go on
does so before the clock moves, and of those that the clock sets free at one instant the one that
began to wait first comes first. -/

namespace SourceDocs

/-- Who answers calls, how long that and waiting take, and who is told about it. -/
structure Service (m : Type → Type) where
  generator : Generator m
  /-- How long the n-th call of the run takes. -/
  latency : Nat → Nat
  /-- Lets a time go by. -/
  sleep : Nat → m Unit
  /-- Is told about the progress. -/
  report : ProgressEvent → m Unit

/-- A run at an instant. -/
structure ClockedRun where
  run : Run
  now : Nat := 0
  /-- Requests that can go on, in order. -/
  ready : List Nat := []
  /-- Requests that cannot, with the instants from which they can, in the order of these. -/
  sleeping : List (Nat × Nat) := []
  cancellation : Cancellation
  /-- When each call started. -/
  callTimes : List Nat := []
  /-- The largest number of calls that were under way at once. -/
  peak : Nat := 0

namespace ClockedRun

/-- Puts a request to sleep, after those that wake no later. -/
def insertSleeper (wake number : Nat) : List (Nat × Nat) → List (Nat × Nat)
  | [] => [(wake, number)]
  | (w, n) :: rest =>
    if w ≤ wake then (w, n) :: insertSleeper wake number rest
    else (wake, number) :: (w, n) :: rest

/-- Lets a request go on after a time; at once if there is none. -/
def later (s : ClockedRun) (time number : Nat) : ClockedRun :=
  if time = 0 then { s with ready := number :: s.ready }
  else { s with sleeping := insertSleeper (s.now + time) number s.sleeping }

/-- Whether a request is between calls. -/
def isWaiting (r : Run) (number : Nat) : Bool :=
  match r.find? number with
  | some { phase := .waiting _, .. } => true
  | _ => false

/-- Cancels the run, which ends the waits between calls. -/
def cancel (s : ClockedRun) : ClockedRun :=
  let freed := s.sleeping.filter fun e => isWaiting s.run e.2
  { s with
    run := (s.run.next? .cancel).getD s.run
    ready := s.ready ++ freed.map Prod.snd
    sleeping := s.sleeping.filter fun e => !isWaiting s.run e.2 }

/-- Cancels the run if it is time to. -/
def checkCancel (s : ClockedRun) : ClockedRun :=
  if !s.run.cancelled && s.cancellation.holds s.now s.run.calls.length then s.cancel else s

/-- The number of calls under way. -/
def inFlight (r : Run) : Nat :=
  r.active.countP fun a => !isWaiting r a.number

variable {m : Type → Type} [Monad m]

/-- Goes on with a request that can. -/
def proceed (service : Service m) (s : ClockedRun) (number : Nat) : m ClockedRun := do
  match s.run.find? number with
  | some { phase := .waiting _, .. } =>
    match s.run.next? (.resume number) with
    | none => return s
    | some run =>
      if run.calls.length = s.run.calls.length then return { s with run }
      let s := { s with
        run, callTimes := s.callTimes ++ [s.now], peak := max s.peak (inFlight run) }
      return s.checkCancel.later (service.latency run.calls.length) number
  | some { job, phase := .calling attempts, .. } =>
    let reply ← service.generator.answer job.prompt
    match s.run.next? (.reply number reply) with
    | none => return s
    | some run =>
      let s := { s with run }
      if isWaiting run number then
        let delay := run.options.policy.delayBefore (attempts + 1)
        return s.later (if run.cancelled then 0 else delay) number
      else return s
  | none => return s

/-- The instant at which the clock frees something, if anything sleeps. -/
def nextInstant? (s : ClockedRun) : Option Nat :=
  s.sleeping.head?.map fun e =>
    match s.cancellation with
    | .atTime t => if s.run.cancelled then e.1 else min t e.1
    | _ => e.1

/-- Moves the clock to an instant. -/
def moveTo (s : ClockedRun) (instant : Nat) : ClockedRun :=
  let s := { s with now := instant }.checkCancel
  { s with
    ready := s.ready ++ (s.sleeping.filter fun e => e.1 ≤ instant).map Prod.snd
    sleeping := s.sleeping.filter fun e => !(e.1 ≤ instant) }

/-- One step; none at the end of the run. -/
def step? (service : Service m) (s : ClockedRun) : m (Option ClockedRun) := do
  match s.run.queued, s.run.next? .begin with
  | (number, _) :: _, some run => return some { s with run, ready := s.ready ++ [number] }
  | _, _ =>
    match s.ready with
    | number :: ready => return some (← proceed service { s with ready } number)
    | [] =>
      match s.nextInstant? with
      | some instant =>
        service.sleep (instant - s.now)
        return some (s.moveTo instant)
      | none => return (s.run.next? .reduce).map fun run => { s with run }

/-- Tells about the progress that a step made. -/
def announce (service : Service m) (before after : ClockedRun) : m Unit :=
  (after.run.progress.drop before.run.settled.length).forM service.report

/-- Steps until the end of the run, at most as many as the first argument says. -/
def steps (service : Service m) : Nat → ClockedRun → m ClockedRun
  | 0, s => pure s
  | n + 1, s => do
    match ← step? service s with
    | none => return s
    | some next =>
      announce service s next
      steps service n next

/-- A number of steps that no run exceeds: each call of each request takes a step to start, one to
be answered and two of the clock. -/
def stepBound (r : Run) : Nat :=
  (r.planned + 2) * (4 * (r.options.policy.maxAttempts + 1) + 3) + 3

end ClockedRun

/-- Takes a run from its start to its end. -/
def Run.drive {m : Type → Type} [Monad m] (service : Service m) (cancellation : Cancellation)
    (r : Run) : m ClockedRun :=
  ClockedRun.steps service (ClockedRun.stepBound r)
    ({ run := r, cancellation : ClockedRun }).checkCancel

end SourceDocs
