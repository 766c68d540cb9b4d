set_option autoImplicit false

/-! # Durations

A `Duration` is a length of time as a machine keeps it: whole seconds in a word of 64 bits, and
nanoseconds that do not make up another second in a word of 32. It is multiplied in these words. -/

namespace SourceDocs

/-- A length of time. -/
structure Duration where
  seconds : UInt64
  nanos : UInt32
  nanos_lt : nanos.toNat < 1000000000
  deriving DecidableEq

namespace Duration

/-- No time at all. -/
def zero : Duration := { seconds := 0, nanos := 0, nanos_lt := by decide }

/-- The longest duration there is. -/
def longest : Duration :=
  { seconds := 18446744073709551615, nanos := 999999999, nanos_lt := by decide }

/-- A duration in nanoseconds. -/
def toNanos (d : Duration) : Nat := d.seconds.toNat * 1000000000 + d.nanos.toNat

theorem toNat_ofNat_nanos {n : Nat} (h : n < 1000000000) : (UInt32.ofNat n).toNat = n :=
  UInt32.toNat_ofNat_of_lt' (Nat.lt_trans h (by decide))

/-- The duration of a number of nanoseconds. One that is too long counts as the longest. -/
def ofNanos (n : Nat) : Duration :=
  if n / 1000000000 < UInt64.size then
    { seconds := UInt64.ofNat (n / 1000000000)
      nanos := UInt32.ofNat (n % 1000000000)
      nanos_lt := by
        rw [toNat_ofNat_nanos (Nat.mod_lt _ (by decide))]
        exact Nat.mod_lt _ (by decide) }
  else longest

/-- The seconds decide which of two durations is longer, and then the nanoseconds. -/
instance : LE Duration :=
  ⟨fun a b => a.seconds < b.seconds ∨ a.seconds = b.seconds ∧ a.nanos ≤ b.nanos⟩

instance (a b : Duration) : Decidable (a ≤ b) :=
  inferInstanceAs (Decidable (a.seconds < b.seconds ∨ a.seconds = b.seconds ∧ a.nanos ≤ b.nanos))

instance : Min Duration := minOfLe

/-! ## Products -/

/-- The product of two words, if it is a word. -/
def wordProduct? (a b : UInt64) : Option UInt64 :=
  if a.toNat * b.toNat < UInt64.size then some (a * b) else none

/-- The sum of two words, if it is a word. -/
def wordSum? (a b : UInt64) : Option UInt64 :=
  if a.toNat + b.toNat < UInt64.size then some (a + b) else none

/-- The nanoseconds of a product, the seconds among them included. -/
def nanosTimes (d : Duration) (factor : UInt32) : UInt64 :=
  d.nanos.toUInt64 * factor.toUInt64

theorem toNat_nanosTimes_mod (d : Duration) (factor : UInt32) :
    (d.nanosTimes factor % 1000000000).toUInt32.toNat =
      (d.nanosTimes factor).toNat % 1000000000 := by
  have hlt : (d.nanosTimes factor).toNat % 1000000000 < 2 ^ 32 :=
    Nat.lt_trans (Nat.mod_lt _ (by decide)) (by decide)
  rw [UInt64.toNat_toUInt32, UInt64.toNat_mod]
  exact Nat.mod_eq_of_lt hlt

/-- The product of a duration with a factor, if there is a duration as long. -/
def times? (d : Duration) (factor : UInt32) : Option Duration := do
  let nanos := d.nanosTimes factor
  let product ← wordProduct? d.seconds factor.toUInt64
  let seconds ← wordSum? product (nanos / 1000000000)
  return {
    seconds
    nanos := (nanos % 1000000000).toUInt32
    nanos_lt := by
      rw [toNat_nanosTimes_mod]
      exact Nat.mod_lt _ (by decide) }

/-- The product of a duration with a factor, or else the longest duration. -/
def saturatingTimes (d : Duration) (factor : UInt32) : Duration :=
  (d.times? factor).getD longest

end Duration

end SourceDocs
