import Tachometer.Proofs.Decimal.Millionths

/-! # Numbers after six places

A 32-bit number is printed with six places, read as a 64-bit number, and rounded to 32 bits again.
Up to `16` the units of both formats are so small that the decimal stays the nearest one. From `16`
on they are larger than a millionth, and the number itself comes back.

* `SixPlaces.reread` — the magnitude that comes back.
* `SixPlaces.reread_of_le` — the same magnitude from `16` on.
* `SixPlaces.abs_reread_sub_le` — at most one millionth from the first.
* `SixPlaces.nearest_reread` — it has the same decimal. -/

namespace Tachometer.SixPlaces

open Format

/-- The magnitude of a number with six places, read as a 64-bit number. -/
def wide (q : Rat) : Rat := binary64.nearest (Millionths.nearest q / 1000000)

/-- The magnitude of a number with six places, read and then rounded to 32 bits. -/
def reread (q : Rat) : Rat := binary32.nearest (wide q)

/-- What is read is a magnitude, so it is not negative: `0 ≤ wide q`. -/
theorem wide_nonneg (q : Rat) : 0 ≤ wide q := binary64.nearest_nonneg _

/-- A decimal is not past a power of two that its number is not past:
`(Millionths.nearest q : Rat) / 1000000 ≤ 2 ^ (k : Int)`. -/
theorem decimal_le_two_zpow {q : Rat} {k : Nat} (hq : 0 ≤ q) (h : q ≤ 2 ^ k) :
    (Millionths.nearest q : Rat) / 1000000 ≤ 2 ^ (k : Int) := by
  have hround := roundHalfEven_mono
    (mul_le_mul_of_nonneg_right h (by norm_num : (0 : Rat) ≤ 1000000))
  have hpow : (2 : Rat) ^ k * 1000000 = ((2 ^ k * 1000000 : Nat) : Rat) := by
    push_cast
    rfl
  rw [hpow, roundHalfEven_natCast] at hround
  have hcast : (roundHalfEven (q * 1000000) : Rat) ≤ 2 ^ k * 1000000 := by
    exact_mod_cast hround
  rw [Millionths.natCast_nearest hq, zpow_natCast, div_le_iff₀ (by norm_num)]
  exact hcast

/-- A number up to a power of two is read with an error of half a 64-bit unit below that power. -/
theorem abs_wide_sub_le {q : Rat} {k : Nat} (hq : 0 ≤ q) (h : q ≤ 2 ^ k) :
    |wide q - Millionths.nearest q / 1000000| ≤ 2 ^ ((k : Int) - 54) := by
  have herror := binary64.abs_nearest_sub_le (k := k) (by positivity) (decimal_le_two_zpow hq h)
    (by rw [minExponent_binary64, fractionBits_binary64]; omega)
  rw [fractionBits_binary64] at herror
  rwa [show (k : Int) - 54 = k - (52 : Nat) - 2 by omega]

/-- What is read does not pass a power of two: `q ≤ 2 ^ k` gives `wide q ≤ 2 ^ k`. -/
theorem wide_le_two_zpow {q : Rat} {k : Nat} (hq : 0 ≤ q) (h : q ≤ 2 ^ k) :
    wide q ≤ 2 ^ (k : Int) :=
  binary64.nearest_le_two_zpow (by positivity) (decimal_le_two_zpow hq h)
    (by rw [minExponent_binary64]; omega)

/-! ## Small numbers -/

/-- **Below `16`** what comes back is less than half a millionth from the decimal. -/
theorem abs_reread_sub_lt {q : Rat} (hq : 0 ≤ q) (h : q ≤ 16) :
    |reread q - Millionths.nearest q / 1000000| < 49 / 100000000 := by
  have hle : q ≤ 2 ^ 4 := by
    norm_num
    exact h
  have hwide := abs_le.mp (abs_wide_sub_le hq hle)
  -- half a 32-bit unit below `16` is `2 ^ -21`, just less than half a millionth
  have hnarrow := abs_le.mp (binary32.abs_nearest_sub_le (k := 4) (wide_nonneg q)
    (wide_le_two_zpow hq hle) (by decide))
  rw [fractionBits_binary32] at hnarrow
  norm_num at hwide hnarrow
  rw [abs_lt, reread]
  constructor <;> linarith

/-! ## Large numbers -/

/-- A 32-bit magnitude that is a whole number of millionths comes back:
`reread (binary32.magnitude rank) = binary32.magnitude rank`. -/
theorem reread_of_mul_eq {rank count : Nat} (h : binary32.magnitude rank * 1000000 = count) :
    reread (binary32.magnitude rank) = binary32.magnitude rank := by
  have hdecimal : (Millionths.nearest (binary32.magnitude rank) : Rat) / 1000000 =
      binary32.magnitude rank := by
    rw [Millionths.nearest_of_mul_eq h, ← h, mul_div_cancel_right₀ _ (by norm_num)]
  obtain ⟨rank', hrank'⟩ := exists_magnitude_eq_magnitude (f := binary32) (g := binary64)
    (by decide) (by decide) rank
  rw [reread, wide, hdecimal, ← hrank', nearest_magnitude, hrank', nearest_magnitude]

/-- From `16` on a 32-bit magnitude is a whole number of millionths, or it is inside a binade whose
unit is larger than a millionth. -/
theorem whole_or_inside {rank : Nat} (h : 16 ≤ binary32.magnitude rank) :
    (∃ count : Nat, binary32.magnitude rank * 1000000 = count) ∨
      ∃ (digits : Nat) (unit : Int), binary32.magnitude rank = digits * 2 ^ unit ∧
        2 ^ 23 < digits ∧ digits < 2 ^ 24 ∧ -19 ≤ unit ∧ unit ≤ -7 := by
  obtain ⟨level, digits, hrank, hlt, hfull⟩ := binary32.exists_level rank
  have hmag := binary32.magnitude_level hlt.le hfull
  rw [← hrank, minExponent_binary32] at hmag
  rw [binade_binary32] at hlt hfull
  obtain ⟨unit, hunit⟩ : ∃ unit : Int, unit = -149 + level := ⟨_, rfl⟩
  rw [← hunit] at hmag
  -- fewer than `2 ^ 24` units make `16`
  have hlow : -19 ≤ unit := by
    have hdigits : (digits : Rat) < 2 ^ (24 : Int) := by
      exact_mod_cast hlt
    have hpow : (2 : Rat) ^ (4 : Int) < 2 ^ (24 + unit) :=
      calc (2 : Rat) ^ (4 : Int) = 16 := by norm_num
        _ ≤ digits * 2 ^ unit := by rwa [← hmag]
        _ < 2 ^ (24 : Int) * 2 ^ unit := by gcongr
        _ = 2 ^ (24 + unit) := (zpow_add₀ two_ne_zero _ _).symm
    have := (zpow_lt_zpow_iff_right₀ one_lt_two).mp hpow
    omega
  have hbinade : 2 ^ 23 ≤ digits := hfull.resolve_left (by omega)
  rcases le_or_gt (-6) unit with hsix | hsix
  · -- six factors of two of a million are enough
    obtain ⟨n, hn⟩ := Int.le.dest hsix
    refine .inl ⟨digits * 2 ^ n * 15625, ?_⟩
    rw [hmag, ← hn, zpow_add₀ two_ne_zero, zpow_natCast]
    push_cast
    norm_num
    ring
  · rcases hbinade.eq_or_lt with hend | hinside
    · -- the end of a binade is a whole number
      obtain ⟨n, hn⟩ := Int.le.dest (show -23 ≤ unit by omega)
      refine .inl ⟨2 ^ n * 1000000, ?_⟩
      rw [hmag, ← hend, ← hn, zpow_add₀ two_ne_zero, zpow_natCast]
      push_cast
      norm_num
      ring
    · exact .inr ⟨digits, unit, hmag, hinside, by omega, hlow, by omega⟩

/-- **From `16` on** a number comes back as it was. -/
theorem reread_of_le {rank : Nat} (h : 16 ≤ binary32.magnitude rank) :
    reread (binary32.magnitude rank) = binary32.magnitude rank := by
  rcases whole_or_inside h with ⟨count, hcount⟩ | ⟨digits, unit, hmag, hlow, hhigh, hunit, hsmall⟩
  · exact reread_of_mul_eq hcount
  · have hdigits : (digits : Rat) ≤ 2 ^ (24 : Int) := by
      exact_mod_cast hhigh.le
    have hle : binary32.magnitude rank ≤ 2 ^ 17 :=
      calc binary32.magnitude rank = digits * 2 ^ unit := hmag
        _ ≤ 2 ^ (24 : Int) * 2 ^ (-7 : Int) := by
          gcongr
          · exact one_le_two
        _ = 2 ^ 17 := by norm_num
    have hnonneg := binary32.magnitude_nonneg rank
    have hwide := abs_le.mp (abs_wide_sub_le hnonneg hle)
    have hdecimal := abs_le.mp (Millionths.abs_nearest_sub_le hnonneg)
    have hhalf : (2 : Rat) ^ (-19 : Int) ≤ 2 ^ unit := zpow_le_zpow_right₀ one_le_two hunit
    norm_num at hwide hhalf
    -- the decimal and the 64-bit number together are off by less than half a unit
    have hnear : |wide (binary32.magnitude rank) - digits * 2 ^ unit| < 2 ^ unit / 2 := by
      rw [← hmag, abs_lt]
      constructor <;> linarith
    rw [reread, binary32.nearest_eq_of_inside (by rw [minExponent_binary32]; omega)
      (by rwa [binade_binary32]) (by rw [binade_binary32]; omega) hnear.le
      fun htie => absurd htie hnear.ne, hmag]

/-! ## All numbers -/

/-- **What comes back** is at most a millionth from the number. -/
theorem abs_reread_sub_le (rank : Nat) :
    |reread (binary32.magnitude rank) - binary32.magnitude rank| ≤ 1 / 1000000 := by
  rcases le_or_gt 16 (binary32.magnitude rank) with h | h
  · rw [reread_of_le h, sub_self, abs_zero]
    norm_num
  · have hnonneg := binary32.magnitude_nonneg rank
    have hreread := abs_lt.mp (abs_reread_sub_lt hnonneg h.le)
    have hdecimal := abs_le.mp (Millionths.abs_nearest_sub_le hnonneg)
    rw [abs_le]
    constructor <;> linarith

/-- **The decimal stays** when it is printed again. -/
theorem nearest_reread (rank : Nat) :
    Millionths.nearest (reread (binary32.magnitude rank)) =
      Millionths.nearest (binary32.magnitude rank) := by
  rcases le_or_gt 16 (binary32.magnitude rank) with h | h
  · rw [reread_of_le h]
  · have hreread := abs_reread_sub_lt (binary32.magnitude_nonneg rank) h.le
    exact Millionths.nearest_eq_of_abs_lt (hreread.trans (by norm_num))

/-- A finite 32-bit number is read as a finite 64-bit number. -/
theorem nearestRank_wide_lt (rank : Fin binary32.infinityRank) :
    binary64.nearestRank (Millionths.nearest (binary32.magnitude rank) / 1000000) <
      binary64.infinityRank := by
  have hend : binary32.magnitude rank ≤ 2 ^ 128 := (binary32.lt_infinityRank_iff.mp rank.isLt).le
  exact binary64.nearestRank_lt_infinityRank (by positivity)
    (decimal_le_two_zpow (binary32.magnitude_nonneg rank) hend) (by decide) (by decide)

/-- A finite 32-bit number comes back as a finite one. -/
theorem nearestRank_reread_lt (rank : Fin binary32.infinityRank) :
    binary32.nearestRank (wide (binary32.magnitude rank)) < binary32.infinityRank := by
  rw [binary32.lt_infinityRank_iff]
  change reread (binary32.magnitude rank) < _
  have hend := binary32.lt_infinityRank_iff.mp rank.isLt
  rcases le_or_gt 16 (binary32.magnitude rank) with h | h
  · rwa [reread_of_le h]
  · have hclose := abs_le.mp (abs_reread_sub_le rank)
    calc reread (binary32.magnitude rank) ≤ 2 ^ 5 := by
          norm_num
          linarith
      _ < 2 ^ 2 ^ (binary32.exponentBits - 1) :=
        pow_lt_pow_right₀ one_lt_two (by decide)

end Tachometer.SixPlaces
