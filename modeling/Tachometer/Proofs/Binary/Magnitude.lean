import Mathlib.Algebra.Order.Field.Power
import Mathlib.Order.Monotone.Basic
import Mathlib.Tactic.FieldSimp
import Mathlib.Tactic.Linarith
import Mathlib.Tactic.NormNum
import Mathlib.Tactic.Positivity
import Mathlib.Tactic.Ring
import Tachometer.Binary.Format

/-! # The numbers that ranks count

A rank is a **level** times the number of ranks in a binade, plus **digits**. Adding one to the
digits adds one unit of the level to the number, also where the digits carry into the next level;
this is why ranks are in the order of the numbers they count.

* `Format.magnitude_level` — the number of a rank from its level and digits.
* `Format.exists_level` — every rank has a level and digits.
* `Format.strictMono_magnitude` — larger ranks count larger numbers.
* `Format.exists_magnitude_eq` — which products with a power of two have a rank.
* `Format.magnitude_infinityRank` — the power of two at which the finite numbers end. -/

namespace Tachometer.Format

variable (f : Format)

/-- A binade has a rank for each value of the bits after the point:
`f.binade = 2 ^ f.fractionBits`. -/
theorem binade_eq_two_pow : f.binade = 2 ^ f.fractionBits := by
  rw [binade, Nat.one_shiftLeft]

/-! ## Levels and digits -/

/-- **The number of a rank.** The digits of a level above the lowest fill at least one binade, and
they may be all of two binades, which is where they carry. -/
theorem magnitude_level {level digits : Nat} (hle : digits ≤ 2 * f.binade)
    (h : level = 0 ∨ f.binade ≤ digits) :
    f.magnitude (level * f.binade + digits) =
      (digits : Rat) * (2 : Rat) ^ (f.minExponent + level) := by
  have hb := f.binade_pos
  unfold magnitude significand exponent
  by_cases hlow : digits < f.binade
  · -- subnormal numbers
    obtain rfl : level = 0 := h.resolve_right (Nat.not_le.mpr hlow)
    simp [hlow, Nat.div_eq_of_lt hlow]
  · obtain ⟨rest, rfl⟩ := Nat.exists_eq_add_of_le (Nat.not_lt.mp hlow)
    have hrank : level * f.binade + (f.binade + rest) = rest + f.binade * (level + 1) := by
      ring
    have hlarge : ¬level * f.binade + (f.binade + rest) < f.binade := by
      omega
    rw [if_neg hlarge, hrank, Nat.add_mul_mod_self_left, Nat.add_mul_div_left _ _ hb]
    rcases Nat.lt_or_ge rest f.binade with hrest | hrest
    · rw [Nat.mod_eq_of_lt hrest, Nat.div_eq_of_lt hrest]
      simp
    · -- the digits carry: twice the binade at this level is one binade at the next
      obtain rfl : rest = f.binade := by
        omega
      rw [Nat.mod_self, Nat.div_self hb]
      have hexp : f.minExponent + ((1 + (level + 1) - 1 : Nat) : Int) =
          f.minExponent + level + 1 := by
        omega
      rw [hexp, zpow_add_one₀ two_ne_zero]
      push_cast
      ring

/-- **Level and digits of a rank.** -/
theorem exists_level (rank : Nat) :
    ∃ level digits, rank = level * f.binade + digits ∧ digits < 2 * f.binade ∧
      (level = 0 ∨ f.binade ≤ digits) := by
  have hb := f.binade_pos
  have hmod := Nat.mod_lt rank hb
  have hdiv := Nat.div_add_mod' rank f.binade
  rcases Nat.eq_zero_or_pos (rank / f.binade) with h | h
  · -- in the lowest binade the rank is its own digits
    rw [h, Nat.zero_mul, Nat.zero_add] at hdiv
    exact ⟨0, rank, by omega, by omega, .inl rfl⟩
  · -- above it the digits include the leading one, so the level is one less
    obtain ⟨level, hlevel⟩ := Nat.exists_eq_add_of_le' h
    refine ⟨level, f.binade + rank % f.binade, ?_, by omega, .inr (by omega)⟩
    rw [hlevel, Nat.add_mul] at hdiv
    omega

/-! ## The order of ranks -/

/-- **Larger ranks count larger numbers.** -/
theorem strictMono_magnitude : StrictMono f.magnitude := by
  apply strictMono_nat_of_lt_succ
  intro rank
  obtain ⟨level, digits, rfl, hlt, h⟩ := f.exists_level rank
  have hnext : level = 0 ∨ f.binade ≤ digits + 1 := h.imp_right fun h => h.trans (Nat.le_succ _)
  rw [Nat.add_assoc, f.magnitude_level hlt.le h, f.magnitude_level hlt hnext]
  -- the two numbers differ by one unit of the level
  have hunit : (0 : Rat) < 2 ^ (f.minExponent + level) := by
    positivity
  push_cast
  linarith

/-- Magnitudes are ordered by their ranks: `f.magnitude r ≤ f.magnitude r' ↔ r ≤ r'`. -/
theorem magnitude_le_iff {r r' : Nat} : f.magnitude r ≤ f.magnitude r' ↔ r ≤ r' :=
  f.strictMono_magnitude.le_iff_le

/-- Magnitudes are strictly ordered by their ranks: `f.magnitude r < f.magnitude r' ↔ r < r'`. -/
theorem magnitude_lt_iff {r r' : Nat} : f.magnitude r < f.magnitude r' ↔ r < r' :=
  f.strictMono_magnitude.lt_iff_lt

/-- Magnitudes are not negative: `0 ≤ f.magnitude rank`. -/
theorem magnitude_nonneg (rank : Nat) : 0 ≤ f.magnitude rank := by
  rw [← f.magnitude_zero, f.magnitude_le_iff]
  exact Nat.zero_le rank

/-- Only the first rank has no magnitude: `0 < rank` gives `0 < f.magnitude rank`. -/
theorem magnitude_pos {rank : Nat} (h : 0 < rank) : 0 < f.magnitude rank := by
  rw [← f.magnitude_zero, f.magnitude_lt_iff]
  exact h

/-! ## Which numbers have a rank -/

/-- **Numbers with a rank.** A number of at most two binades of units, each a power of two that is
not too small, has a rank: `∃ rank, f.magnitude rank = digits * 2 ^ unit`. -/
theorem exists_magnitude_eq {digits : Nat} {unit : Int} (hd : digits ≤ 2 * f.binade)
    (he : f.minExponent ≤ unit) : ∃ rank, f.magnitude rank = digits * 2 ^ unit := by
  obtain ⟨level, rfl⟩ : ∃ level : Nat, unit = f.minExponent + level :=
    ⟨(unit - f.minExponent).toNat, by omega⟩
  -- induction on the level of the unit; at the lowest any number of digits is a rank
  induction level generalizing digits with
  | zero =>
    have hlow : 0 = 0 ∨ f.binade ≤ digits := .inl rfl
    exact ⟨digits, by simpa using f.magnitude_level hd hlow⟩
  | succ level ih =>
    by_cases h : f.binade ≤ digits
    · exact ⟨_, f.magnitude_level hd (.inr h)⟩
    · -- too few digits for the level: as twice as many they fit the one below
      obtain ⟨rank, hrank⟩ := ih (show 2 * digits ≤ 2 * f.binade by omega) (by omega)
      refine ⟨rank, hrank.trans ?_⟩
      rw [Nat.cast_succ, ← add_assoc, zpow_add_one₀ two_ne_zero]
      push_cast
      ring

/-- A number with a rank stays one in a format that is at least as fine:
`∃ rank', g.magnitude rank' = f.magnitude rank`. -/
theorem exists_magnitude_eq_magnitude {g : Format} (hfrac : f.fractionBits ≤ g.fractionBits)
    (hmin : g.minExponent ≤ f.minExponent) (rank : Nat) :
    ∃ rank', g.magnitude rank' = f.magnitude rank := by
  obtain ⟨level, digits, rfl, hlt, h⟩ := f.exists_level rank
  rw [f.magnitude_level hlt.le h]
  have hb : f.binade ≤ g.binade := by
    rw [binade_eq_two_pow, binade_eq_two_pow]
    exact Nat.pow_le_pow_right two_pos hfrac
  exact g.exists_magnitude_eq (by omega) (by omega)

/-! ## The end of the finite numbers -/

/-- **The first number that is too large.**
`f.magnitude f.infinityRank = 2 ^ 2 ^ (f.exponentBits - 1)`. -/
theorem magnitude_infinityRank :
    f.magnitude f.infinityRank = 2 ^ 2 ^ (f.exponentBits - 1) := by
  have hb := f.binade_pos
  obtain ⟨width, hwidth⟩ : ∃ width, f.exponentBits = width + 1 + 1 :=
    ⟨f.exponentBits - 2, by have := f.one_lt_exponentBits; omega⟩
  have hpow : 2 ≤ 2 ^ (width + 1) := Nat.le_self_pow (Nat.succ_ne_zero width) 2
  -- infinity's rank is one full binade of digits at the level past the last
  have hrank : f.infinityRank = (2 * 2 ^ (width + 1) - 2) * f.binade + f.binade := by
    rw [infinityRank, Nat.one_shiftLeft, hwidth, pow_succ' 2 (width + 1),
      show 2 * 2 ^ (width + 1) - 1 = 2 * 2 ^ (width + 1) - 2 + 1 by omega, Nat.succ_mul]
  have hexp : f.minExponent + ((2 * 2 ^ (width + 1) - 2 : Nat) : Int) =
      2 ^ (width + 1) - f.fractionBits := by
    rw [minExponent, Nat.one_shiftLeft, hwidth, Nat.cast_sub (by omega)]
    push_cast [Nat.add_sub_cancel]
    ring
  rw [hrank, f.magnitude_level (by omega) (.inr le_rfl), hexp, f.binade_eq_two_pow, hwidth,
    Nat.add_sub_cancel, zpow_sub₀ two_ne_zero, zpow_natCast]
  push_cast
  field_simp
  norm_cast

/-- A number below the end of the finite numbers has a rank below infinity's. -/
theorem lt_infinityRank_iff {rank : Nat} :
    rank < f.infinityRank ↔ f.magnitude rank < 2 ^ 2 ^ (f.exponentBits - 1) := by
  rw [← f.magnitude_infinityRank, f.magnitude_lt_iff]

end Tachometer.Format
