import SourceDocs.Time.Duration

set_option autoImplicit false

/-! # Generation requests: errors, retries, backoff

A request to a generator ends after one or several calls. A call may fail in a way that is worth
another call; before that a delay is kept, which doubles from call to call up to a limit. Delays are
computed as durations (`Backoff`). The times of a request and of its policy are counted in a unit
that the policy has, milliseconds or nanoseconds. -/

namespace SourceDocs

/-- Why a call failed. -/
inductive GenerationError where
  | disabled
  | transport (detail : String)
  | status (code : Nat) (body : String)
  | malformed (detail : String)
  | cancelled
  deriving DecidableEq

namespace GenerationError

/-- The error as text. -/
def message : GenerationError → String
  | disabled => "generation provider is disabled"
  | transport detail => "request failed: " ++ detail
  | status code body => "service returned HTTP " ++ toString code ++ ": " ++ body
  | malformed detail => "malformed response: " ++ detail
  | cancelled => "cancelled"

/-- Whether another call may succeed. -/
def isRetryable : GenerationError → Bool
  | transport _ => true
  | malformed _ => true
  | status code _ => code = 429 || 500 ≤ code
  | disabled => false
  | cancelled => false

end GenerationError

/-- What a call gives: a text or an error. -/
abbrev Reply := Except GenerationError String

/-- A service that answers prompts. -/
structure Generator (m : Type → Type) where
  modelName : String
  answer : String → m Reply

/-- How a request failed: by which error, after how many calls. -/
structure RetryFailure where
  error : GenerationError
  attempts : Nat
  deriving DecidableEq

/-- How a request ended. -/
abbrev Outcome := Except RetryFailure String

/-- Delays between the calls of a request: the first one, and one that none exceeds. -/
structure Backoff where
  base : Duration
  limit : Duration
  deriving DecidableEq

namespace Backoff

/-- How often the first delay is doubled before the call with number `attempt`. -/
def doublings (attempt : Nat) : Nat := min (attempt - 2) 16

/-- What the first delay is multiplied with before the call with number `attempt`. -/
def factorBefore (attempt : Nat) : UInt32 := 1 <<< UInt32.ofNat (doublings attempt)

/-- The delay before the call with number `attempt`, counted from one. -/
def delayBefore (b : Backoff) (attempt : Nat) : Duration :=
  if attempt ≤ 1 then .zero
  else min (b.base.saturatingTimes (factorBefore attempt)) b.limit

end Backoff

/-- What times are counted in. -/
inductive TimeUnit where
  | nanosecond
  | millisecond
  deriving DecidableEq

namespace TimeUnit

/-- The nanoseconds of a unit of time. -/
def nanos : TimeUnit → Nat
  | nanosecond => 1
  | millisecond => 1000000

theorem nanos_pos (u : TimeUnit) : 0 < u.nanos := by
  cases u with
  | nanosecond => decide
  | millisecond => decide

end TimeUnit

/-- How often a request is tried, and the delays between its calls. -/
structure RetryPolicy where
  maxAttempts : Nat
  /-- The first delay, in units of time. -/
  baseDelay : Nat
  /-- The delay that none exceeds, in units of time. -/
  maxDelay : Nat
  /-- A millisecond unless it is set. -/
  unit : TimeUnit := .millisecond
  deriving DecidableEq

namespace RetryPolicy

/-- The policy for a configured first delay, in milliseconds. -/
def ofBackoff (maxAttempts backoff : Nat) : RetryPolicy :=
  { maxAttempts, baseDelay := backoff, maxDelay := backoff * 32 }

/-- The delays of the policy as durations. -/
def backoff (p : RetryPolicy) : Backoff :=
  { base := .ofNanos (p.baseDelay * p.unit.nanos), limit := .ofNanos (p.maxDelay * p.unit.nanos) }

/-- The delay before the call with number `attempt`, counted from one, in units of time. -/
def delayBefore (p : RetryPolicy) (attempt : Nat) : Nat :=
  (p.backoff.delayBefore attempt).toNanos / p.unit.nanos

/-- The first call is not delayed. -/
@[simp]
theorem delayBefore_one (p : RetryPolicy) : p.delayBefore 1 = 0 := by
  have hzero : Duration.zero.toNanos = 0 := by decide
  rw [delayBefore, Backoff.delayBefore, if_pos (Nat.le_refl 1), hzero, Nat.zero_div]

/-- Whether a request goes on after its call number `attempts` failed. -/
def goesOn (p : RetryPolicy) (attempts : Nat) (e : GenerationError) : Bool :=
  e.isRetryable && attempts < p.maxAttempts

end RetryPolicy

end SourceDocs
