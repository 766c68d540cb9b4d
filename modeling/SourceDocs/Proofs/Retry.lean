import Mathlib.Algebra.BigOperators.Intervals
import SourceDocs.Retry

set_option autoImplicit false

/-! # Requests: one call after the other

A request is a loop of turns that the policy ends (`RetryPolicy.retryAfter_eq_turn`,
`RetryPolicy.eq_retryAfter_of_turn`). A `Replay` is a request to a generator of which all replies
and latencies are given beforehand; `Replay.loop` is what becomes of it after `n` calls. It is given
up before the next call (`loop_of_holds`), ends by the reply to it (`loop_of_stops`) or goes on
after that (`loop_of_goesOn`). Whole requests are put together from these steps: up to a call before
which they are cancelled (`run_of_holds`), or to the last call there is (`run_of_last`). -/

namespace SourceDocs

/-! ## Waits -/

namespace Cancellation

variable {c : Cancellation} {now calls wake : Nat}

/-- A wait ends when it should if the cancellation has not happened by then. -/
theorem endOfWait_eq_wake (hle : now ≤ wake) (hholds : c.holds wake calls = false) :
    c.endOfWait now calls wake = wake := by
  cases c with
  | never => rfl
  | atTime t =>
    simp only [holds, decide_eq_false_iff_not, Nat.not_le] at hholds
    have hnow : ¬t ≤ now := by omega
    simp only [endOfWait, holds, hnow, decide_false, Bool.false_eq_true, if_false]
    omega
  | afterCalls n =>
    simp only [holds] at hholds
    simp [endOfWait, holds, hholds]

/-- A wait ends cancelled if the cancellation happens until it should end. -/
theorem holds_endOfWait (hle : now ≤ wake) :
    c.holds (c.endOfWait now calls wake) calls = c.holds wake calls := by
  cases c with
  | never => rfl
  | atTime t =>
    simp only [endOfWait, holds, decide_eq_true_eq]
    split <;> simp only [decide_eq_decide] <;> omega
  | afterCalls n => rfl

end Cancellation

/-! ## The loop -/

namespace RetryPolicy

variable {m : Type → Type} [Monad m] (p : RetryPolicy) (s : RetrySetting m) (prompt : String)
  {attempts now : Nat}

/-- One turn of a request at `now`, after `attempts` calls: it waits, looks for a cancellation,
makes a call and, if the policy says so, goes on with `again`. -/
def turn (again : Nat → Nat → m RetryRun) (attempts now : Nat) : m RetryRun := do
  let start := s.cancellation.endOfWait now attempts (now + p.delayBefore (attempts + 1))
  if s.cancellation.holds start attempts then
    return { outcome := .error ⟨.cancelled, attempts⟩, callTimes := [], endTime := start }
  let finish := start + s.latency (attempts + 1)
  match ← s.generator.answer prompt with
  | .ok text => return { outcome := .ok text, callTimes := [start], endTime := finish }
  | .error e =>
    if p.goesOn (attempts + 1) e then
      let later ← again (attempts + 1) finish
      return { later with callTimes := start :: later.callTimes }
    else
      return { outcome := .error ⟨e, attempts + 1⟩, callTimes := [start], endTime := finish }

/-- What becomes of a request at `now`, after `attempts` calls. -/
def retryAfter (attempts now : Nat) : m RetryRun :=
  p.retryFrom s prompt (p.maxAttempts - (attempts + 1)) attempts now

/-- Counting down the calls that are left comes to the same as comparing those made with the
limit. -/
theorem retryAfter_eq_turn (attempts now : Nat) :
    p.retryAfter s prompt attempts now = p.turn s prompt (p.retryAfter s prompt) attempts now := by
  rw [retryAfter, retryFrom, turn]
  refine ite_congr rfl (fun _ => rfl) fun _ => bind_congr fun reply => ?_
  cases reply with
  | ok text => rfl
  | error e =>
    by_cases hretryable : e.isRetryable = true
    · cases hleft : p.maxAttempts - (attempts + 1) with
      | zero =>
        have hlimit : ¬attempts + 1 < p.maxAttempts := by omega
        simp [goesOn, hretryable, hlimit]
      | succ left =>
        have hlimit : attempts + 1 < p.maxAttempts := by omega
        obtain rfl : left = p.maxAttempts - (attempts + 1 + 1) := by omega
        simp [goesOn, hretryable, hlimit, retryAfter]
    · simp [goesOn, hretryable]

/-- A loop without a bound on its turns comes to the same: the policy ends it. -/
theorem eq_retryAfter_of_turn {loop : Nat → Nat → m RetryRun}
    (hloop : ∀ attempts now, loop attempts now = p.turn s prompt loop attempts now)
    (attempts now : Nat) : loop attempts now = p.retryAfter s prompt attempts now := by
  -- every turn that goes on leaves fewer calls
  induction hleft : p.maxAttempts - attempts using Nat.strong_induction_on
    generalizing attempts now with
  | _ left ih =>
    rw [hloop, retryAfter_eq_turn, turn, turn]
    refine ite_congr rfl (fun _ => rfl) fun _ => bind_congr fun reply => ?_
    cases reply with
    | ok text => rfl
    | error e =>
      refine ite_congr rfl (fun hgo => ?_) fun _ => rfl
      have hlimit : attempts + 1 < p.maxAttempts := by
        simp only [goesOn, Bool.and_eq_true, decide_eq_true_eq] at hgo
        exact hgo.2
      rw [ih (p.maxAttempts - (attempts + 1)) (by omega) (attempts + 1) _ rfl]

variable {s}

/-- A request is given up where the cancellation happens until the next call. -/
theorem retryAfter_of_holds
    (hholds : s.cancellation.holds (now + p.delayBefore (attempts + 1)) attempts = true) :
    p.retryAfter s prompt attempts now =
      return { outcome := .error ⟨.cancelled, attempts⟩, callTimes := []
               endTime := s.cancellation.endOfWait now attempts
                 (now + p.delayBefore (attempts + 1)) } := by
  have hcancelled := (Cancellation.holds_endOfWait (Nat.le_add_right _ _)).trans hholds
  rw [retryAfter_eq_turn, turn]
  exact if_pos hcancelled

/-- Otherwise the call is made after the full delay. -/
theorem retryAfter_of_not_holds
    (hholds : s.cancellation.holds (now + p.delayBefore (attempts + 1)) attempts = false) :
    p.retryAfter s prompt attempts now = do
      let start := now + p.delayBefore (attempts + 1)
      let finish := start + s.latency (attempts + 1)
      match ← s.generator.answer prompt with
      | .ok text => return { outcome := .ok text, callTimes := [start], endTime := finish }
      | .error e =>
        let failed : RetryRun :=
          { outcome := .error ⟨e, attempts + 1⟩, callTimes := [start], endTime := finish }
        if p.goesOn (attempts + 1) e then
          let later ← p.retryAfter s prompt (attempts + 1) finish
          return { later with callTimes := start :: later.callTimes }
        else return failed := by
  have hwait : s.cancellation.endOfWait now attempts (now + p.delayBefore (attempts + 1)) =
      now + p.delayBefore (attempts + 1) :=
    Cancellation.endOfWait_eq_wake (Nat.le_add_right _ _) hholds
  rw [retryAfter_eq_turn, turn, hwait]
  exact if_neg (by rw [hholds]; exact Bool.false_ne_true)

end RetryPolicy

/-! ## Requests to given replies -/

/-- A generator that gives the n-th call, counted from one, the n-th of given replies and keeps the
prompts of its calls. -/
def Generator.replaying (replies : Nat → Reply) : Generator (StateM (List String)) where
  modelName := ""
  answer prompt := do
    let sent ← get
    set (sent ++ [prompt])
    return replies (sent.length + 1)

/-- Whether a reply ends its request however many calls are left. -/
def isFinal : Reply → Bool
  | .ok _ => true
  | .error e => !e.isRetryable

/-- A request with all that decides how it goes, except for a cancellation: the replies to its calls
and their latencies, each by the number of the call. Times are counted in the unit of the policy,
which may be a nanosecond. -/
structure Replay where
  policy : RetryPolicy
  prompt : String
  replies : Nat → Reply
  latency : Nat → Nat
  /-- When the request is made. -/
  now : Nat

namespace Replay

variable (q : Replay) (c : Cancellation)

/-- The surroundings of the request. -/
def setting : RetrySetting (StateM (List String)) where
  generator := .replaying q.replies
  latency := q.latency
  cancellation := c

/-- What becomes of the request, and the prompts of its calls. -/
def run : RetryRun × List String :=
  (q.policy.retry (q.setting c) q.prompt q.now).run []

/-- The greatest number of calls. -/
def limit : Nat := max 1 q.policy.maxAttempts

/-- The number of the last call if there is no cancellation: the first with a final reply within the
limit, or else the limit. -/
def lastCall : Nat :=
  ((List.range' 1 q.limit).find? fun k => isFinal (q.replies k)).getD q.limit

/-- When call number `k` starts if there is no cancellation. -/
def startOf (k : Nat) : Nat :=
  q.now + ∑ i ∈ Finset.Ico 1 k, (q.latency i + q.policy.delayBefore (i + 1))

/-- How the request ends by the reply to call number `k`. -/
def outcomeOf (k : Nat) : Outcome :=
  (q.replies k).mapError fun e => { error := e, attempts := k }

/-- When the request is ready for another call after `n` calls. -/
def readyAfter : Nat → Nat
  | 0 => q.now
  | n + 1 => q.startOf (n + 1) + q.latency (n + 1)

/-- What becomes of the request after `n` calls. -/
def loop (n : Nat) : RetryRun × List String :=
  (q.policy.retryAfter (q.setting c) q.prompt n (q.readyAfter n)).run (List.replicate n q.prompt)

variable {q c} {n : Nat}

theorem startOf_succ (q : Replay) (n : Nat) :
    q.startOf (n + 1) = q.readyAfter n + q.policy.delayBefore (n + 1) := by
  cases n with
  | zero =>
    rw [Nat.zero_add, RetryPolicy.delayBefore_one]
    rfl
  | succ n =>
    rw [readyAfter, startOf, Finset.sum_Ico_succ_top (by omega), startOf]
    omega

/-! ## One turn of the loop -/

theorem loop_of_holds (hholds : c.holds (q.startOf (n + 1)) n = true) :
    q.loop c n =
      ({ outcome := .error ⟨.cancelled, n⟩, callTimes := []
         endTime := c.endOfWait (q.readyAfter n) n (q.startOf (n + 1)) },
        List.replicate n q.prompt) := by
  rw [startOf_succ] at hholds ⊢
  rw [loop, q.policy.retryAfter_of_holds q.prompt hholds]
  rfl

/-- Whether a request goes on after call number `k`. -/
def GoesOn (q : Replay) (k : Nat) : Prop :=
  ∃ e, q.replies k = .error e ∧ q.policy.goesOn k e = true

/-- Call number `n + 1` gets the reply with this number and leaves its prompt. -/
theorem run_answer (q : Replay) (c : Cancellation) (n : Nat) :
    ((q.setting c).generator.answer q.prompt).run (List.replicate n q.prompt) =
      pure (q.replies (n + 1), List.replicate (n + 1) q.prompt) := by
  have hanswer : ((q.setting c).generator.answer q.prompt).run (List.replicate n q.prompt) =
      pure (q.replies ((List.replicate n q.prompt).length + 1),
        List.replicate n q.prompt ++ [q.prompt]) := rfl
  rw [hanswer, List.length_replicate, List.replicate_succ']

theorem loop_of_goesOn (hholds : c.holds (q.startOf (n + 1)) n = false) (hgo : q.GoesOn (n + 1)) :
    q.loop c n =
      ({ (q.loop c (n + 1)).1 with
         callTimes := q.startOf (n + 1) :: (q.loop c (n + 1)).1.callTimes },
        (q.loop c (n + 1)).2) := by
  obtain ⟨e, hreply, hgo⟩ := hgo
  rw [loop, loop, readyAfter]
  rw [startOf_succ] at hholds ⊢
  rw [q.policy.retryAfter_of_not_holds q.prompt hholds, StateT.run_bind, run_answer, pure_bind,
    hreply]
  simp only [hgo, if_true]
  rfl

theorem loop_of_stops (hholds : c.holds (q.startOf (n + 1)) n = false)
    (hstop : ¬q.GoesOn (n + 1)) :
    q.loop c n =
      ({ outcome := q.outcomeOf (n + 1), callTimes := [q.startOf (n + 1)]
         endTime := q.startOf (n + 1) + q.latency (n + 1) },
        List.replicate (n + 1) q.prompt) := by
  rw [loop, outcomeOf]
  rw [startOf_succ] at hholds ⊢
  rw [q.policy.retryAfter_of_not_holds q.prompt hholds, StateT.run_bind, run_answer, pure_bind]
  cases hreply : q.replies (n + 1) with
  | ok text => rfl
  | error e =>
    have hgo : ¬q.policy.goesOn (n + 1) e = true := fun hgo => hstop ⟨e, hreply, hgo⟩
    simp only [hgo]
    rfl

/-! ## Several turns -/

/-- The first `n` calls of a request that goes on after each of them. -/
theorem run_of_goesOn (hholds : ∀ i < n, c.holds (q.startOf (i + 1)) i = false)
    (hgo : ∀ i < n, q.GoesOn (i + 1)) :
    q.run c =
      ({ (q.loop c n).1 with
         callTimes := (List.range' 1 n).map q.startOf ++ (q.loop c n).1.callTimes },
        (q.loop c n).2) := by
  induction n with
  | zero => rfl
  | succ n ih =>
    rw [ih (fun i hi => hholds i (by omega)) fun i hi => hgo i (by omega),
      loop_of_goesOn (hholds n (by omega)) (hgo n (by omega)), List.range'_1_concat,
      List.map_append, List.append_assoc, Nat.add_comm 1 n]
    rfl

/-! ## The last call -/

/-- A request goes on after a call that another may follow, unless the reply is final. -/
theorem goesOn_iff {k : Nat} :
    q.GoesOn k ↔ isFinal (q.replies k) = false ∧ k < q.policy.maxAttempts := by
  rw [GoesOn]
  cases q.replies k with
  | ok text => simp [isFinal]
  | error e => simp [isFinal, RetryPolicy.goesOn]

/-- The last call is the first with a final reply, or the last within the limit. -/
theorem lastCall_spec (q : Replay) :
    1 ≤ q.lastCall ∧ q.lastCall ≤ q.limit ∧
    (∀ k, 1 ≤ k → k < q.lastCall → isFinal (q.replies k) = false) ∧
    (isFinal (q.replies q.lastCall) = true ∨ q.lastCall = q.limit) := by
  rw [lastCall]
  cases hfirst : (List.range' 1 q.limit).find? fun k => isFinal (q.replies k) with
  | none =>
    rw [List.find?_range'_eq_none] at hfirst
    refine ⟨Nat.le_max_left _ _, Nat.le_refl _, fun k hk hlt => ?_, Or.inr rfl⟩
    have hnot := hfirst k hk (Nat.lt_add_left 1 hlt)
    simpa using hnot
  | some k =>
    obtain ⟨hfinal, hmem, hbefore⟩ := List.find?_range'_eq_some.1 hfirst
    obtain ⟨hone, hle⟩ := List.mem_range'_1.1 hmem
    rw [Option.getD_some]
    refine ⟨hone, by omega, fun j hj hlt => ?_, Or.inl hfinal⟩
    simpa using hbefore j hj hlt

theorem goesOn_of_lt_lastCall {k : Nat} (hk : 1 ≤ k) (hlt : k < q.lastCall) : q.GoesOn k := by
  obtain ⟨-, hle, hbefore, -⟩ := q.lastCall_spec
  refine goesOn_iff.2 ⟨hbefore k hk hlt, ?_⟩
  rw [limit] at hle
  omega

theorem not_goesOn_lastCall (q : Replay) : ¬q.GoesOn q.lastCall := by
  intro hgo
  obtain ⟨hnot, hlt⟩ := goesOn_iff.1 hgo
  obtain ⟨-, -, -, hfinal | hlimit⟩ := q.lastCall_spec
  · rw [hnot] at hfinal
    cases hfinal
  · rw [hlimit, limit] at hlt
    omega

/-! ## Whole requests -/

/-- What becomes of the request if nothing cancels it. -/
def uncancelled (q : Replay) : RetryRun × List String :=
  ({ outcome := q.outcomeOf q.lastCall
     callTimes := (List.range' 1 q.lastCall).map q.startOf
     endTime := q.startOf q.lastCall + q.latency q.lastCall },
    List.replicate q.lastCall q.prompt)

/-- A request whose cancellation does not happen until its last call ends as without. -/
theorem run_of_last (hholds : ∀ i < q.lastCall, c.holds (q.startOf (i + 1)) i = false) :
    q.run c = q.uncancelled := by
  obtain ⟨n, hlast⟩ := Nat.exists_eq_add_of_le' q.lastCall_spec.1
  have hgo : ∀ i < n, q.GoesOn (i + 1) := fun i hi => goesOn_of_lt_lastCall (by omega) (by omega)
  have hstop := q.not_goesOn_lastCall
  rw [hlast] at hholds hstop
  rw [run_of_goesOn (fun i hi => hholds i (by omega)) hgo,
    loop_of_stops (hholds n (by omega)) hstop, uncancelled, hlast, List.range'_1_concat,
    List.map_append, Nat.add_comm 1 n]
  rfl

/-- A request whose cancellation happens until some call makes the calls before it. -/
theorem run_of_holds (hlt : n < q.lastCall)
    (hbefore : ∀ i < n, c.holds (q.startOf (i + 1)) i = false)
    (hholds : c.holds (q.startOf (n + 1)) n = true) :
    q.run c =
      ({ outcome := .error ⟨.cancelled, n⟩, callTimes := (List.range' 1 n).map q.startOf
         endTime := c.endOfWait (q.readyAfter n) n (q.startOf (n + 1)) },
        List.replicate n q.prompt) := by
  have hgo : ∀ i < n, q.GoesOn (i + 1) := fun i hi => goesOn_of_lt_lastCall (by omega) (by omega)
  rw [run_of_goesOn hbefore hgo, loop_of_holds hholds, List.append_nil]

theorem run_never_eq (q : Replay) : q.run .never = q.uncancelled :=
  run_of_last fun _ _ => rfl

/-- **A request that is not cancelled makes its calls until one is answered for good.** Its last
call is the first that succeeds or fails for good, or else the last one that the limit allows. All
calls have its prompt; each starts when the one before has ended and the delay is over. The request
ends when its last call ends, with the text of that call or with its error and number. The numbers
of calls never exceed the limit, so they fit where the limit fits; and though nothing else bounds
the loop of a request, its turns come to this end. -/
theorem run_never (q : Replay) :
    q.run .never =
      ({ outcome := q.outcomeOf q.lastCall
         callTimes := (List.range' 1 q.lastCall).map q.startOf
         endTime := q.startOf q.lastCall + q.latency q.lastCall },
        List.replicate q.lastCall q.prompt) ∧
    1 ≤ q.lastCall ∧ q.lastCall ≤ max 1 q.policy.maxAttempts ∧
    (q.policy.maxAttempts < 2 ^ 32 → q.lastCall < 2 ^ 32) ∧
    ∀ loop, (∀ attempts now,
        loop attempts now = q.policy.turn (q.setting .never) q.prompt loop attempts now) →
      (loop 0 q.now).run [] = q.run .never := by
  obtain ⟨hone, hle, -, -⟩ := q.lastCall_spec
  refine ⟨q.run_never_eq, hone, hle, fun hword => ?_, fun loop hloop => ?_⟩
  · rw [limit] at hle
    omega
  · rw [q.policy.eq_retryAfter_of_turn _ _ hloop]
    rfl

/-- A request that fails twice and then succeeds. -/
example :
    let q : Replay :=
      { policy := { maxAttempts := 3, baseDelay := 10, maxDelay := 15 }, prompt := "p"
        replies := fun k => if k < 3 then .error (.status 503 "") else .ok "text"
        latency := fun k => k, now := 100 }
    (q.run .never).1.callTimes = [100, 111, 128] ∧ (q.run .never).1.endTime = 131 ∧
      (q.run .never).2 = ["p", "p", "p"] := by
  decide +kernel

end Replay

end SourceDocs
