import SourceDocs.Generation

set_option autoImplicit false

/-! # One request under a clock

`retry` makes the calls of a single request one after the other and tells when each started, in the
units of time of its policy. A request may be cancelled: no call starts from then on, a delay that
is being kept ends at once, but a call that is under way is waited for. -/

namespace SourceDocs

/-- When requests are cancelled. -/
inductive Cancellation where
  | never
  /-- At an instant of the clock. -/
  | atTime (t : Nat)
  /-- When this many calls have started. -/
  | afterCalls (n : Nat)
  deriving DecidableEq

namespace Cancellation

/-- Whether the cancellation has happened at `now`, after `calls` calls. -/
def holds (c : Cancellation) (now calls : Nat) : Bool :=
  match c with
  | never => false
  | atTime t => t ≤ now
  | afterCalls n => n ≤ calls

/-- When a wait from `now` until `wake` ends: early if the cancellation comes before. -/
def endOfWait (c : Cancellation) (now calls wake : Nat) : Nat :=
  if c.holds now calls then now
  else
    match c with
    | atTime t => min t wake
    | _ => wake

end Cancellation

/-- What became of a request. -/
structure RetryRun where
  outcome : Outcome
  /-- When each call started. -/
  callTimes : List Nat
  endTime : Nat

/-- The surroundings of a request: who answers, how long the n-th call takes, when it is called
off. -/
structure RetrySetting (m : Type → Type) where
  generator : Generator m
  latency : Nat → Nat
  cancellation : Cancellation

namespace RetryPolicy

variable {m : Type → Type} [Monad m]

/-- Goes on with a request at `now`, after `attempts` calls, when all calls but one may still be
followed by another `left` times. -/
def retryFrom (p : RetryPolicy) (s : RetrySetting m) (prompt : String) :
    Nat → Nat → Nat → m RetryRun
  | left, attempts, now => do
    let start := s.cancellation.endOfWait now attempts (now + p.delayBefore (attempts + 1))
    if s.cancellation.holds start attempts then
      return { outcome := .error ⟨.cancelled, attempts⟩, callTimes := [], endTime := start }
    let attempts := attempts + 1
    let finish := start + s.latency attempts
    match ← s.generator.answer prompt with
    | .ok text => return { outcome := .ok text, callTimes := [start], endTime := finish }
    | .error e =>
      let failed : RetryRun :=
        { outcome := .error ⟨e, attempts⟩, callTimes := [start], endTime := finish }
      if e.isRetryable then
        match left with
        | 0 => return failed
        | left + 1 =>
          let later ← retryFrom p s prompt left attempts finish
          return { later with callTimes := start :: later.callTimes }
      else return failed

/-- Makes a request that starts at `now`. -/
def retry (p : RetryPolicy) (s : RetrySetting m) (prompt : String) (now : Nat) : m RetryRun :=
  retryFrom p s prompt (p.maxAttempts - 1) 0 now

end RetryPolicy

end SourceDocs
