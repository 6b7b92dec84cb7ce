/-! # Binary floating-point formats

A format is fixed by two widths. Its non-negative finite numbers are counted by their **rank**:
rank `0` is zero, every next rank is the next larger number, and the rank is also the number's bit
pattern without the sign bit.

* `Format.significand`, `Format.exponent` — the two halves of the number of a given rank.
* `Format.magnitude` — that number, `significand * 2 ^ exponent`, as an exact rational.
* `Format.infinityRank` — the first rank that no finite number has. -/

namespace Tachometer

/-- The widths of a binary floating-point format's two stored fields. -/
structure Format where
  /-- Width of the fraction field; a significand has one more, leading, digit. -/
  fractionBits : Nat
  /-- Width of the exponent field. -/
  exponentBits : Nat
  /-- There is a fraction field. -/
  fractionBits_pos : 0 < fractionBits := by decide
  /-- The exponent field tells subnormal, normal and non-finite numbers apart. -/
  one_lt_exponentBits : 1 < exponentBits := by decide
  deriving DecidableEq, Repr

namespace Format

/-- The 32-bit interchange format. -/
def binary32 : Format where
  fractionBits := 23
  exponentBits := 8

/-- The 64-bit interchange format. -/
def binary64 : Format where
  fractionBits := 52
  exponentBits := 11

variable (f : Format)

/-! ## Ranks and the numbers they count -/

/-- The number of ranks that share one exponent; also the leading digit's weight in a
significand. -/
def binade : Nat := 1 <<< f.fractionBits

/-- The exponent of the last digit of every subnormal number, the least exponent of all. -/
def minExponent : Int :=
  2 - ((1 <<< (f.exponentBits - 1) : Nat) : Int) - (f.fractionBits : Int)

/-- The rank at which the finite numbers end. -/
def infinityRank : Nat := ((1 <<< f.exponentBits) - 1) * f.binade

/-- The significand of the number of a given rank. Subnormal numbers lack the leading digit. -/
def significand (rank : Nat) : Nat :=
  if rank < f.binade then rank else f.binade + rank % f.binade

/-- The exponent of the last digit of the number of a given rank. The subnormal numbers share
theirs with the first binade of normal numbers. -/
def exponent (rank : Nat) : Int :=
  f.minExponent + ((rank / f.binade - 1 : Nat) : Int)

/-- The number of a given rank. -/
def magnitude (rank : Nat) : Rat :=
  (f.significand rank : Rat) * (2 : Rat) ^ f.exponent rank

/-- A binade is not empty: `0 < f.binade`. -/
theorem binade_pos : 0 < f.binade := by
  rw [binade, Nat.one_shiftLeft]
  exact Nat.two_pow_pos _

/-- There is a finite magnitude: `0 < f.infinityRank`. -/
theorem infinityRank_pos : 0 < f.infinityRank := by
  have h : 1 < 1 <<< f.exponentBits := by
    rw [Nat.one_shiftLeft]
    exact Nat.one_lt_two_pow (Nat.ne_of_gt (Nat.lt_trans Nat.zero_lt_one f.one_lt_exponentBits))
  exact Nat.mul_pos (Nat.sub_pos_of_lt h) f.binade_pos

/-- The first rank has no digits: `f.significand 0 = 0`. -/
@[simp] theorem significand_zero : f.significand 0 = 0 := by
  simp [significand, f.binade_pos]

/-- The first rank has the magnitude zero: `f.magnitude 0 = 0`. -/
@[simp] theorem magnitude_zero : f.magnitude 0 = 0 := by
  simp [magnitude]

end Format

end Tachometer
