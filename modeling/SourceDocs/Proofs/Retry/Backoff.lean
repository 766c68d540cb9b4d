import Mathlib.Algebra.GroupWithZero.Nat
import SourceDocs.Config
import SourceDocs.Proofs.Time.Duration

set_option autoImplicit false

/-! # Backoff: delays that double up to a limit

The delay before a call is the first delay doubled once for each call but the first two, sixteen
times at most, and cut off at the limit. It is computed with shifts and products of words that
cannot hold all of these numbers, and is exact all the same (`Backoff.toNanos_delayBefore`): what
does not fit is above the limit. -/

namespace SourceDocs

namespace Backoff

variable (b : Backoff) {k k' : Nat}

theorem doublings_lt (k : Nat) : doublings k < 32 := by
  rw [doublings]
  omega

/-- The shift loses nothing. -/
theorem toNat_factorBefore (k : Nat) : (factorBefore k).toNat = 2 ^ min (k - 2) 16 := by
  have hle : doublings k ≤ 16 := Nat.min_le_right _ _
  have hall : ∀ n ≤ 16, ((1 : UInt32) <<< UInt32.ofNat n).toNat = 2 ^ n := by decide
  exact hall _ hle

theorem delayBefore_of_le (hk : k ≤ 1) : b.delayBefore k = .zero := by
  rw [delayBefore, if_pos hk]

/-- **A delay is the doubled first delay or the limit**, though the doubled delay may not fit. -/
theorem toNanos_delayBefore (hk : 2 ≤ k) :
    (b.delayBefore k).toNanos =
      min (b.base.toNanos * 2 ^ min (k - 2) 16) b.limit.toNanos := by
  have hlimit := b.limit.toNanos_le_longest
  rw [delayBefore, if_neg (by omega), Duration.toNanos_min, Duration.toNanos_saturatingTimes,
    toNat_factorBefore, Nat.min_assoc, Nat.min_eq_right hlimit]

theorem delayBefore_le_limit (k : Nat) : b.delayBefore k ≤ b.limit := by
  rw [Duration.le_iff]
  by_cases hk : k ≤ 1
  · rw [delayBefore_of_le b hk, Duration.toNanos_zero]
    exact Nat.zero_le _
  · rw [toNanos_delayBefore b (by omega)]
    exact Nat.min_le_right _ _

theorem delayBefore_mono (hle : k ≤ k') : b.delayBefore k ≤ b.delayBefore k' := by
  rw [Duration.le_iff]
  by_cases hk : k ≤ 1
  · rw [delayBefore_of_le b hk, Duration.toNanos_zero]
    exact Nat.zero_le _
  · have hpow : 2 ^ min (k - 2) 16 ≤ 2 ^ min (k' - 2) 16 :=
      Nat.pow_le_pow_right (by decide) (by omega)
    rw [toNanos_delayBefore b (by omega), toNanos_delayBefore b (by omega)]
    exact Nat.le_min.2 ⟨Nat.le_trans (Nat.min_le_left _ _) (Nat.mul_le_mul_left _ hpow),
      Nat.min_le_right _ _⟩

end Backoff

/-! ## Policies in units of time -/

/-- A limit of 32 first delays is met after five doublings. -/
theorem min_mul_two_pow (n e : Nat) : min (n * 2 ^ min e 16) (n * 32) = n * 2 ^ min e 5 := by
  have hlimit : 2 ^ 5 = 32 := by decide
  by_cases he : e ≤ 5
  · have hpow : 2 ^ min e 16 ≤ 2 ^ 5 := Nat.pow_le_pow_right (by decide) (by omega)
    rw [hlimit] at hpow
    rw [Nat.min_eq_left (Nat.mul_le_mul_left n hpow), Nat.min_eq_left (by omega : e ≤ 16),
      Nat.min_eq_left he]
  · have hpow : 2 ^ 5 ≤ 2 ^ min e 16 := Nat.pow_le_pow_right (by decide) (by omega)
    rw [hlimit] at hpow
    rw [Nat.min_eq_right (Nat.mul_le_mul_left n hpow), Nat.min_eq_right (by omega : 5 ≤ e), hlimit]

namespace RetryPolicy

variable {p : RetryPolicy} {k : Nat}

theorem toNanos_backoff (hbase : p.baseDelay * p.unit.nanos ≤ Duration.longest.toNanos)
    (hmax : p.maxDelay * p.unit.nanos ≤ Duration.longest.toNanos) (hk : 2 ≤ k) :
    (p.backoff.delayBefore k).toNanos =
      min (p.baseDelay * 2 ^ min (k - 2) 16) p.maxDelay * p.unit.nanos := by
  rw [Backoff.toNanos_delayBefore _ hk, backoff, Duration.toNanos_ofNanos hbase,
    Duration.toNanos_ofNanos hmax, Nat.mul_right_comm, Nat.mul_min_mul_right]

/-- Delays are whole units of time, as the first of them and the limit are. -/
theorem delayBefore_eq_min (hbase : p.baseDelay * p.unit.nanos ≤ Duration.longest.toNanos)
    (hmax : p.maxDelay * p.unit.nanos ≤ Duration.longest.toNanos) (hk : 2 ≤ k) :
    p.delayBefore k = min (p.baseDelay * 2 ^ min (k - 2) 16) p.maxDelay := by
  rw [delayBefore, toNanos_backoff hbase hmax hk, Nat.mul_div_cancel _ p.unit.nanos_pos]

/-- The policy with some durations as its delays, which counts in nanoseconds. -/
def ofDurations (maxAttempts : Nat) (b : Backoff) : RetryPolicy :=
  { maxAttempts, baseDelay := b.base.toNanos, maxDelay := b.limit.toNanos, unit := .nanosecond }

theorem backoff_ofDurations (maxAttempts : Nat) (b : Backoff) :
    (ofDurations maxAttempts b).backoff = b := by
  simp only [backoff, ofDurations, TimeUnit.nanos, Nat.mul_one, Duration.ofNanos_toNanos]

theorem delayBefore_ofDurations (maxAttempts : Nat) (b : Backoff) (k : Nat) :
    (ofDurations maxAttempts b).delayBefore k = (b.delayBefore k).toNanos := by
  rw [delayBefore, backoff_ofDurations]
  exact Nat.div_one _

end RetryPolicy

namespace GenerationSettings

variable {s : GenerationSettings} {k : Nat}

/-- The limit of a configured policy can be computed. -/
theorem times?_backoff (hword : s.backoff < 2 ^ 64) :
    s.policy.backoff.base.times? 32 = some s.policy.backoff.limit := by
  have hlongest := Duration.toNanos_longest
  have hfactor : (32 : UInt32).toNat = 32 := rfl
  have hbase : s.policy.backoff.base = .ofNanos (s.backoff * 1000000) := rfl
  have hlimit : s.policy.backoff.limit = .ofNanos (s.backoff * 32 * 1000000) := rfl
  rw [Duration.times?_eq_some_iff, hlimit, hbase, Duration.toNanos_ofNanos (by omega),
    Duration.toNanos_ofNanos (by omega), hfactor, Nat.mul_right_comm]

end GenerationSettings

namespace Backoff

/-- **Delays are exact, and nothing overflows.** Before the second call and each later one, the
delay is the first delay doubled once a call, sixteen times at most, or else the limit, to the
nanosecond and for all durations. The shift and the product of the nanoseconds stay within their
words. No delay exceeds the limit, and later delays are not shorter. A policy that counts in
nanoseconds has the delays of any durations, and one that counts in milliseconds has whole ones.
For a configured first delay the limit is a duration, and the delay is doubled five times at
most. -/
theorem delays_exact :
    (∀ (b : Backoff) (k : Nat),
      doublings k < 32 ∧ (factorBefore k).toNat = 2 ^ min (k - 2) 16 ∧
      (b.base.nanosTimes (factorBefore k)).toNat = b.base.nanos.toNat * (factorBefore k).toNat ∧
      (k ≤ 1 → b.delayBefore k = .zero) ∧
      (2 ≤ k → (b.delayBefore k).toNanos =
        min (b.base.toNanos * 2 ^ min (k - 2) 16) b.limit.toNanos) ∧
      b.delayBefore k ≤ b.limit ∧
      ∀ k', k ≤ k' → b.delayBefore k ≤ b.delayBefore k') ∧
    (∀ (maxAttempts : Nat) (b : Backoff) (k : Nat),
      (RetryPolicy.ofDurations maxAttempts b).backoff = b ∧
      (RetryPolicy.ofDurations maxAttempts b).delayBefore k = (b.delayBefore k).toNanos) ∧
    (∀ (p : RetryPolicy) (k : Nat),
      p.baseDelay * p.unit.nanos ≤ Duration.longest.toNanos →
      p.maxDelay * p.unit.nanos ≤ Duration.longest.toNanos →
      2 ≤ k → p.delayBefore k = min (p.baseDelay * 2 ^ min (k - 2) 16) p.maxDelay) ∧
    ∀ s : GenerationSettings, s.backoff < 2 ^ 64 →
      s.policy.backoff.base.toNanos = s.backoff * 1000000 ∧
      s.policy.backoff.base.times? 32 = some s.policy.backoff.limit ∧
      ∀ k, 2 ≤ k →
        (s.policy.backoff.delayBefore k).toNanos = s.backoff * 2 ^ min (k - 2) 5 * 1000000 ∧
        s.policy.delayBefore k = s.backoff * 2 ^ min (k - 2) 5 := by
  refine ⟨fun b k => ⟨doublings_lt k, toNat_factorBefore k, b.base.toNat_nanosTimes _,
    b.delayBefore_of_le, b.toNanos_delayBefore, b.delayBefore_le_limit k,
    fun _ => b.delayBefore_mono⟩,
    fun maxAttempts b k => ⟨RetryPolicy.backoff_ofDurations maxAttempts b,
      RetryPolicy.delayBefore_ofDurations maxAttempts b k⟩,
    fun p k hbase hmax hk => RetryPolicy.delayBefore_eq_min hbase hmax hk,
    fun s hword => ?_⟩
  have hlongest := Duration.toNanos_longest
  have hbase : s.policy.baseDelay * s.policy.unit.nanos ≤ Duration.longest.toNanos := by
    show s.backoff * 1000000 ≤ _
    omega
  have hmax : s.policy.maxDelay * s.policy.unit.nanos ≤ Duration.longest.toNanos := by
    show s.backoff * 32 * 1000000 ≤ _
    omega
  refine ⟨Duration.toNanos_ofNanos hbase, GenerationSettings.times?_backoff hword,
    fun k hk => ⟨?_, ?_⟩⟩
  · rw [RetryPolicy.toNanos_backoff hbase hmax hk]
    exact congrArg (· * 1000000) (min_mul_two_pow s.backoff (k - 2))
  · rw [RetryPolicy.delayBefore_eq_min hbase hmax hk]
    exact min_mul_two_pow s.backoff (k - 2)

/-- The longest first delay that can be configured, before the last call that can be counted. -/
theorem delays_exact_longestBackoff :
    2 ^ 64 - 1 < 2 ^ 64 ∧ 2 ≤ 2 ^ 32 - 1 ∧
    (GenerationSettings.policy { backoff := 2 ^ 64 - 1 }).delayBefore (2 ^ 32 - 1) =
      (2 ^ 64 - 1) * 32 := by
  obtain ⟨-, -, -, hconfigured⟩ := delays_exact
  obtain ⟨-, -, hdelay⟩ := hconfigured { backoff := 2 ^ 64 - 1 } (by decide)
  exact ⟨by decide, by decide, (hdelay (2 ^ 32 - 1) (by decide)).2⟩

end Backoff

end SourceDocs
