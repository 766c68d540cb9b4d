import Mathlib.Data.Nat.Basic
import SourceDocs.Time.Duration

set_option autoImplicit false

/-! # Durations: exact products

Every duration is that of its nanoseconds (`Duration.ofNanos_toNanos`), and durations compare as
these do. The product with a factor has the product of the nanoseconds, though it is computed in
words, and there is none only where no duration is as long (`Duration.times?_eq_some_iff`). -/

namespace SourceDocs

namespace Duration

variable {d d' : Duration} {factor : UInt32} {n : Nat}

/-! ## Nanoseconds -/

theorem size_eq : UInt64.size = 18446744073709551616 := rfl

theorem toNanos_zero : zero.toNanos = 0 := by decide

theorem toNanos_longest : longest.toNanos = 18446744073709551616 * 1000000000 - 1 := by decide

theorem toNanos_le_longest (d : Duration) : d.toNanos ≤ longest.toNanos := by
  have hseconds := d.seconds.toNat_lt
  have hnanos := d.nanos_lt
  rw [toNanos_longest, toNanos]
  omega

theorem toNanos_ofNanos (h : n ≤ longest.toNanos) : (ofNanos n).toNanos = n := by
  rw [toNanos_longest] at h
  have hword : n / 1000000000 < UInt64.size := by
    rw [size_eq]
    omega
  have hseconds := UInt64.toNat_ofNat_of_lt' hword
  have hnanos := toNat_ofNat_nanos (Nat.mod_lt n (show 0 < 1000000000 by decide))
  rw [ofNanos, if_pos hword, toNanos, hseconds, hnanos]
  omega

theorem toNanos_inj (h : d.toNanos = d'.toNanos) : d = d' := by
  obtain ⟨seconds, nanos, hlt⟩ := d
  obtain ⟨seconds', nanos', hlt'⟩ := d'
  simp only [toNanos] at h
  obtain rfl : seconds = seconds' := UInt64.toNat_inj.1 (by omega)
  obtain rfl : nanos = nanos' := UInt32.toNat_inj.1 (by omega)
  rfl

theorem ofNanos_toNanos (d : Duration) : ofNanos d.toNanos = d :=
  toNanos_inj (toNanos_ofNanos d.toNanos_le_longest)

/-- Durations compare as their nanoseconds do. -/
theorem le_iff : d ≤ d' ↔ d.toNanos ≤ d'.toNanos := by
  have hlt := d.nanos_lt
  have hlt' := d'.nanos_lt
  show d.seconds < d'.seconds ∨ d.seconds = d'.seconds ∧ d.nanos ≤ d'.nanos ↔ _
  rw [UInt64.lt_iff_toNat_lt, ← UInt64.toNat_inj, UInt32.le_iff_toNat_le, toNanos, toNanos]
  omega

theorem toNanos_min (d d' : Duration) : (min d d').toNanos = min d.toNanos d'.toNanos := by
  show (if d ≤ d' then d else d').toNanos = _
  by_cases h : d ≤ d'
  · rw [if_pos h, Nat.min_eq_left (le_iff.1 h)]
  · rw [if_neg h, Nat.min_eq_right (by rw [le_iff] at h; omega)]

/-! ## Products -/

/-- The nanoseconds of a product fit into a word. -/
theorem toNat_nanosTimes (d : Duration) (factor : UInt32) :
    (d.nanosTimes factor).toNat = d.nanos.toNat * factor.toNat := by
  have hlt : d.nanos.toNat * factor.toNat < 2 ^ 32 * 2 ^ 32 :=
    Nat.mul_lt_mul'' d.nanos.toNat_lt factor.toNat_lt
  rw [nanosTimes, UInt64.toNat_mul, UInt32.toNat_toUInt64, UInt32.toNat_toUInt64]
  exact Nat.mod_eq_of_lt hlt

theorem wordProduct?_eq_some_iff {a b w : UInt64} :
    wordProduct? a b = some w ↔ w.toNat = a.toNat * b.toNat := by
  have hw := w.toNat_lt_size
  unfold wordProduct?
  split
  · rename_i h
    rw [Option.some.injEq, ← UInt64.toNat_inj, UInt64.toNat_mul, Nat.mod_eq_of_lt h]
    exact eq_comm
  · rename_i h
    simp only [reduceCtorEq, false_iff]
    omega

theorem wordSum?_eq_some_iff {a b w : UInt64} :
    wordSum? a b = some w ↔ w.toNat = a.toNat + b.toNat := by
  have hw := w.toNat_lt_size
  unfold wordSum?
  split
  · rename_i h
    rw [Option.some.injEq, ← UInt64.toNat_inj, UInt64.toNat_add, Nat.mod_eq_of_lt h]
    exact eq_comm
  · rename_i h
    simp only [reduceCtorEq, false_iff]
    omega

/-- What the seconds and the nanoseconds of a product are. -/
theorem times?_eq_some_iff_parts : d.times? factor = some d' ↔
    d'.seconds.toNat =
      d.seconds.toNat * factor.toNat + d.nanos.toNat * factor.toNat / 1000000000 ∧
    d'.nanos.toNat = d.nanos.toNat * factor.toNat % 1000000000 := by
  have hnanos := toNat_nanosTimes d factor
  have hcarry : (d.nanosTimes factor / 1000000000).toNat =
      d.nanos.toNat * factor.toNat / 1000000000 := by
    rw [UInt64.toNat_div, hnanos]
    rfl
  have hrest := toNat_nanosTimes_mod d factor
  rw [hnanos] at hrest
  constructor
  · intro h
    obtain ⟨product, hproduct, h⟩ := Option.bind_eq_some_iff.1 h
    obtain ⟨seconds, hseconds, h⟩ := Option.bind_eq_some_iff.1 h
    cases h
    rw [wordProduct?_eq_some_iff, UInt32.toNat_toUInt64] at hproduct
    rw [wordSum?_eq_some_iff, hproduct, hcarry] at hseconds
    exact ⟨hseconds, hrest⟩
  · rintro ⟨hseconds', hnanos'⟩
    have hlt := d'.seconds.toNat_lt_size
    have hword : d.seconds.toNat * factor.toNat < UInt64.size := by omega
    have hproduct : wordProduct? d.seconds factor.toUInt64 =
        some (UInt64.ofNat (d.seconds.toNat * factor.toNat)) := by
      rw [wordProduct?_eq_some_iff, UInt64.toNat_ofNat_of_lt' hword, UInt32.toNat_toUInt64]
    have hsum : wordSum? (UInt64.ofNat (d.seconds.toNat * factor.toNat))
        (d.nanosTimes factor / 1000000000) = some d'.seconds := by
      rw [wordSum?_eq_some_iff, UInt64.toNat_ofNat_of_lt' hword, hcarry, hseconds']
    refine Option.bind_eq_some_iff.2 ⟨_, hproduct, Option.bind_eq_some_iff.2 ⟨_, hsum, ?_⟩⟩
    obtain ⟨seconds, nanos, hbound⟩ := d'
    obtain rfl := UInt32.toNat_inj.1 (hnanos'.trans hrest.symm)
    rfl

/-- **There is a product exactly where there is a duration as long, and it is this one.** -/
theorem times?_eq_some_iff :
    d.times? factor = some d' ↔ d'.toNanos = d.toNanos * factor.toNat := by
  have hlt := d'.nanos_lt
  rw [times?_eq_some_iff_parts, toNanos, toNanos, Nat.add_mul, Nat.mul_right_comm]
  omega

theorem toNanos_saturatingTimes (d : Duration) (factor : UInt32) :
    (d.saturatingTimes factor).toNanos = min (d.toNanos * factor.toNat) longest.toNanos := by
  unfold saturatingTimes
  cases hproduct : d.times? factor with
  | some d' =>
    have hnanos := times?_eq_some_iff.1 hproduct
    rw [Option.getD_some, ← hnanos, Nat.min_eq_left d'.toNanos_le_longest]
  | none =>
    -- a duration as long as the product would be the product
    have hlong : longest.toNanos < d.toNanos * factor.toNat := by
      by_contra hle
      have hd' := toNanos_ofNanos (Nat.not_lt.1 hle)
      rw [times?_eq_some_iff.2 hd'] at hproduct
      cases hproduct
    rw [Option.getD_none, Nat.min_eq_right (Nat.le_of_lt hlong)]

end Duration

end SourceDocs
