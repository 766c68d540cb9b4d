import SourceDocs.Proofs.Retry

set_option autoImplicit false

/-! # Cancelled requests: what is left of the calls

A request that is cancelled at some time makes the calls that start before it and no others
(`exists_cutAfter`). If some call is left it is given up: at once where it was waiting, and
otherwise when the call under way ends. `CutAt` compares it with the same request without a
cancellation. What happens where a call starts just then is left open there. -/

namespace SourceDocs

namespace Replay

variable {q : Replay} {t n k start : Nat}

/-! ## The order of calls -/

theorem readyAfter_le_startOf (q : Replay) (n : Nat) : q.readyAfter n ≤ q.startOf (n + 1) := by
  rw [startOf_succ]
  exact Nat.le_add_right _ _

/-- Calls start one after the other. -/
theorem startOf_mono (q : Replay) : Monotone fun n => q.startOf (n + 1) := by
  refine monotone_nat_of_le_succ fun n => ?_
  calc q.startOf (n + 1)
      ≤ q.readyAfter (n + 1) := Nat.le_add_right _ _
    _ ≤ q.startOf (n + 1 + 1) := q.readyAfter_le_startOf (n + 1)

theorem getElem?_callTimes : ((List.range' 1 k).map q.startOf)[n]? = some start ↔
    n < k ∧ q.startOf (n + 1) = start := by
  rw [List.getElem?_map, Option.map_eq_some_iff]
  simp only [List.getElem?_eq_some_iff, List.getElem_range', List.length_range', Nat.one_mul,
    exists_prop]
  constructor
  · rintro ⟨_, ⟨hlt, rfl⟩, rfl⟩
    exact ⟨hlt, by rw [Nat.add_comm]⟩
  · rintro ⟨hlt, rfl⟩
    exact ⟨1 + n, ⟨hlt, rfl⟩, by rw [Nat.add_comm]⟩

/-- The request is ready for another call at the end of the one before. -/
theorem readyAfter_mono (q : Replay) : Monotone q.readyAfter := by
  refine monotone_nat_of_le_succ fun n => ?_
  calc q.readyAfter n
      ≤ q.startOf (n + 1) := q.readyAfter_le_startOf n
    _ ≤ q.readyAfter (n + 1) := Nat.le_add_right _ _

/-! ## The request up to the cancellation -/

/-- The request without a cancellation. -/
abbrev full (q : Replay) : RetryRun := (q.run .never).1

/-- The request with a cancellation at `t`. -/
abbrev cut (q : Replay) (t : Nat) : RetryRun := (q.run (.atTime t)).1

/-- The first `n` calls start before `t`, and a request that is cancelled at `t` makes no others. -/
structure CutAfter (q : Replay) (t n : Nat) : Prop where
  le_lastCall : n ≤ q.lastCall
  before : ∀ i < n, q.startOf (i + 1) < t
  after : n < q.lastCall → t ≤ q.startOf (n + 1)
  callTimes : (q.cut t).callTimes = (List.range' 1 n).map q.startOf
  prompts : (q.run (.atTime t)).2 = List.replicate n q.prompt
  /-- No call is left. -/
  whole : n = q.lastCall → q.cut t = q.full
  /-- Some call is left: the request is given up, but not before it is ready for that call. -/
  givenUp : n < q.lastCall →
    (q.cut t).outcome = .error ⟨.cancelled, n⟩ ∧ (q.cut t).endTime = max (q.readyAfter n) t

theorem full_callTimes (q : Replay) :
    q.full.callTimes = (List.range' 1 q.lastCall).map q.startOf := by
  rw [full, run_never_eq, uncancelled]

theorem cutAfter_lastCall (hall : ∀ i < q.lastCall, q.startOf (i + 1) < t) :
    q.CutAfter t q.lastCall := by
  have hrun : q.run (.atTime t) = q.uncancelled := by
    refine run_of_last fun i hi => ?_
    simpa [Cancellation.holds] using hall i hi
  exact
    { le_lastCall := Nat.le_refl _
      before := hall
      after := fun hlt => absurd hlt (Nat.lt_irrefl _)
      callTimes := by rw [cut, hrun, uncancelled]
      prompts := by rw [hrun, uncancelled]
      whole := fun _ => congrArg Prod.fst (hrun.trans q.run_never_eq.symm)
      givenUp := fun hlt => absurd hlt (Nat.lt_irrefl _) }

theorem cutAfter_of_lt (hlt : n < q.lastCall) (hbefore : ∀ i < n, q.startOf (i + 1) < t)
    (hafter : t ≤ q.startOf (n + 1)) : q.CutAfter t n := by
  have hrun := run_of_holds (c := .atTime t) hlt
    (fun i hi => by simpa [Cancellation.holds] using hbefore i hi)
    (by simpa [Cancellation.holds] using hafter)
  have hend : Cancellation.endOfWait (.atTime t) (q.readyAfter n) n (q.startOf (n + 1)) =
      max (q.readyAfter n) t := by
    simp only [Cancellation.endOfWait, Cancellation.holds, decide_eq_true_eq]
    split <;> omega
  exact
    { le_lastCall := hlt.le
      before := hbefore
      after := fun _ => hafter
      callTimes := by rw [cut, hrun]
      prompts := by rw [hrun]
      whole := fun heq => absurd heq hlt.ne
      givenUp := fun _ => by
        rw [cut, hrun]
        exact ⟨rfl, hend⟩ }

theorem exists_cutAfter (q : Replay) (t : Nat) : ∃ n, q.CutAfter t n := by
  by_cases hall : ∀ i < q.lastCall, q.startOf (i + 1) < t
  · exact ⟨q.lastCall, cutAfter_lastCall hall⟩
  · -- cut at the first call that does not start before the cancellation
    have hexists : ∃ n, n < q.lastCall ∧ t ≤ q.startOf (n + 1) := by
      simpa using hall
    classical
    obtain ⟨hlt, hafter⟩ := Nat.find_spec hexists
    refine ⟨Nat.find hexists, cutAfter_of_lt hlt (fun i hi => ?_) hafter⟩
    have hnot := Nat.find_min hexists hi
    simp only [not_and, Nat.not_le] at hnot
    exact hnot (hi.trans hlt)

namespace CutAfter

variable {m : Nat}

/-- The calls that are made are those that start before the cancellation. -/
theorem lt_iff (h : q.CutAfter t n) (hm : m < q.lastCall) : m < n ↔ q.startOf (m + 1) < t := by
  refine ⟨h.before m, fun hstart => ?_⟩
  by_contra hle
  have hnm : n ≤ m := Nat.le_of_not_lt hle
  have hafter := h.after (hnm.trans_lt hm)
  exact absurd hstart (Nat.not_lt.2 (hafter.trans (q.startOf_mono hnm)))

theorem le_of_lt_startOf (h : q.CutAfter t n) (hm : m < q.lastCall)
    (hlater : t < q.startOf (m + 1)) : n ≤ m := by
  refine Nat.le_of_not_lt fun hmn => ?_
  exact absurd ((h.lt_iff hm).1 hmn) (Nat.not_lt.2 hlater.le)

/-- If the cancellation comes while a call is under way, this is the last one. -/
theorem eq_of_calling (h : q.CutAfter t n) (hm : m + 1 < q.lastCall)
    (hbefore : q.startOf (m + 1) < t) (hend : t < q.readyAfter (m + 1)) : n = m + 1 := by
  have hle : n ≤ m + 1 :=
    h.le_of_lt_startOf hm (hend.trans_le (q.readyAfter_le_startOf (m + 1)))
  have hlt : m < n := (h.lt_iff (Nat.lt_of_succ_lt hm)).2 hbefore
  exact Nat.le_antisymm hle hlt

theorem length_callTimes (h : q.CutAfter t n) : (q.cut t).callTimes.length = n := by
  rw [h.callTimes, List.length_map, List.length_range']

theorem isPrefix_callTimes (h : q.CutAfter t n) : (q.cut t).callTimes <+: q.full.callTimes := by
  rw [h.callTimes, full_callTimes]
  refine List.IsPrefix.map _ ⟨List.range' (1 + n) (q.lastCall - n), ?_⟩
  rw [List.range'_append_1, Nat.add_sub_cancel' h.le_lastCall]

end CutAfter

/-! ## Two requests compared -/

/-- What a cancellation at `t` makes of a request. -/
structure CutAt (q : Replay) (t : Nat) : Prop where
  /-- Calls that would start before are made, at the same time. -/
  made : ∀ (n : Nat) start, q.full.callTimes[n]? = some start → start < t →
    (q.cut t).callTimes[n]? = some start
  /-- Calls that would start later are not made. -/
  unmade : ∀ (n : Nat) start, q.full.callTimes[n]? = some start → t < start →
    (q.cut t).callTimes.length ≤ n
  /-- No other calls are made, and all have the prompt of the request. -/
  calls : (q.cut t).callTimes <+: q.full.callTimes ∧
    (q.run (.atTime t)).2 = List.replicate (q.cut t).callTimes.length q.prompt
  /-- Nothing changes if the last call starts before. -/
  unchanged : ∀ start, q.full.callTimes.getLast? = some start → start < t → q.cut t = q.full
  /-- If a call would start later, the request ends cancelled after the calls that were made. -/
  cancelled : ∀ start ∈ q.full.callTimes, t < start →
    (q.cut t).outcome = .error ⟨.cancelled, (q.cut t).callTimes.length⟩
  /-- A wait for the next call is cut short. -/
  waiting : ∀ (n : Nat) start next, q.full.callTimes[n]? = some start →
    q.full.callTimes[n + 1]? = some next → start + q.latency (n + 1) ≤ t → t < next →
    (q.cut t).endTime = t
  /-- A call under way that may be followed by another is waited for. -/
  calling : ∀ (n : Nat) start, q.full.callTimes[n]? = some start → start < t →
    t < start + q.latency (n + 1) → q.GoesOn (n + 1) →
    (q.cut t).outcome = .error ⟨.cancelled, n + 1⟩ ∧
      (q.cut t).endTime = start + q.latency (n + 1)
  /-- A request that is cancelled when it is made ends at once. -/
  atEntry : t ≤ q.now →
    q.cut t = { outcome := .error ⟨.cancelled, 0⟩, callTimes := [], endTime := q.now }

/-- **A cancellation cuts a request short.** The calls that start before it are made as without it,
and no later ones. If some call is left the request ends cancelled after the calls that were made:
at once if it was waiting or had made none, and otherwise when the call under way ends. If none is
left nothing changes. -/
theorem cancellation_cuts_short (q : Replay) (t : Nat) : q.CutAt t := by
  obtain ⟨n, h⟩ := q.exists_cutAfter t
  have hfull : ∀ {m start}, q.full.callTimes[m]? = some start →
      m < q.lastCall ∧ q.startOf (m + 1) = start := fun hm => by
    rwa [full_callTimes, getElem?_callTimes] at hm
  refine ⟨?made, ?unmade, ?calls, ?unchanged, ?cancelled, ?waiting, ?calling, ?atEntry⟩
  case made =>
    intro m start hm hbefore
    obtain ⟨hlt, rfl⟩ := hfull hm
    rw [h.callTimes, getElem?_callTimes]
    exact ⟨(h.lt_iff hlt).2 hbefore, rfl⟩
  case unmade =>
    intro m start hm hlater
    obtain ⟨hlt, rfl⟩ := hfull hm
    rw [h.length_callTimes]
    exact h.le_of_lt_startOf hlt hlater
  case calls => exact ⟨h.isPrefix_callTimes, by rw [h.length_callTimes, h.prompts]⟩
  case unchanged =>
    intro start hlast hbefore
    have hone := q.lastCall_spec.1
    rw [List.getLast?_eq_getElem?] at hlast
    obtain ⟨hlt, rfl⟩ := hfull hlast
    have hlength : q.full.callTimes.length = q.lastCall := by simp [full_callTimes]
    rw [hlength] at hlt hbefore
    have hle := (h.lt_iff hlt).2 hbefore
    exact h.whole (Nat.le_antisymm h.le_lastCall (by omega))
  case cancelled =>
    intro start hmem hlater
    obtain ⟨m, hm⟩ := List.mem_iff_getElem?.1 hmem
    obtain ⟨hlt, rfl⟩ := hfull hm
    have hnm : n ≤ m := h.le_of_lt_startOf hlt hlater
    rw [h.length_callTimes]
    exact (h.givenUp (hnm.trans_lt hlt)).1
  case waiting =>
    intro m start next hm hnext hend hlater
    obtain ⟨-, rfl⟩ := hfull hm
    obtain ⟨hlt, rfl⟩ := hfull hnext
    have hnm : n ≤ m + 1 := h.le_of_lt_startOf hlt hlater
    have hready : q.readyAfter n ≤ t := (q.readyAfter_mono hnm).trans hend
    rw [(h.givenUp (hnm.trans_lt hlt)).2, Nat.max_eq_right hready]
  case calling =>
    intro m start hm hbefore hend hgo
    obtain ⟨hlt, rfl⟩ := hfull hm
    have hmore : m + 1 < q.lastCall := by
      refine Nat.lt_of_le_of_ne hlt fun heq => q.not_goesOn_lastCall ?_
      rwa [← heq]
    obtain rfl := h.eq_of_calling hmore hbefore hend
    obtain ⟨houtcome, hendTime⟩ := h.givenUp hmore
    exact ⟨houtcome, hendTime.trans (Nat.max_eq_left hend.le)⟩
  case atEntry =>
    intro hentry
    have hone := q.lastCall_spec.1
    have hnone : ¬0 < n := fun hpos => absurd (h.before 0 hpos) (Nat.not_lt.2 hentry)
    obtain rfl : n = 0 := by omega
    obtain ⟨houtcome, hendTime⟩ := h.givenUp hone
    have hcalls : (q.cut t).callTimes = [] := h.callTimes
    rw [readyAfter, Nat.max_eq_left hentry] at hendTime
    rw [← houtcome, ← hcalls, ← hendTime]

/-- A request that is cancelled while it waits for its second call, and one while this call is under
way. -/
example :
    let q : Replay :=
      { policy := { maxAttempts := 3, baseDelay := 10, maxDelay := 15 }, prompt := "p"
        replies := fun _ => .error (.status 503 ""), latency := fun k => k, now := 100 }
    (q.cut 105).callTimes = [100] ∧ (q.cut 105).endTime = 105 ∧
      (q.cut 112).callTimes = [100, 111] ∧ (q.cut 112).endTime = 113 := by
  decide +kernel

end Replay

end SourceDocs
