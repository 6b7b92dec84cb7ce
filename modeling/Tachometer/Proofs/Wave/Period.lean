import Tachometer.Proofs.Binary.Distance
import Tachometer.Proofs.Wave.Generate

/-! # The period of a frequency

The counts in a period come from two divisions, each rounded, and a cut-off. Up to the highest
clock for which the lowest frequency still fits 32 bits, the roundings together are far less than a
count off, so only the cut-off loses something, and less than one count.

* `countRate`, `countsIn` — the two rounded quotients, as rationals.
* `toNat_period_eq` — the period is the second one, cut off.
* `abs_countsIn_sub_le` — how far that one is from the exact quotient.
* `period_anti` — higher frequencies have no longer periods.
* `PeriodFits`, `periodFits` — the period that is queued for a frequency is right, and is never the
  limit of its 32 bits. -/

namespace Tachometer.Wave

open Format

variable {clock : Nat} {f g : Binary64}

/-! ## The lowest frequency -/

/-- The lowest frequency is the number nearest to a tenth, which is not below it. -/
theorem tenth_le_lowestFrequency :
    lowestFrequency.isFinite = true ∧ 1 / 10 ≤ lowestFrequency.toRat := by
  constructor <;> decide +kernel

/-- The lowest frequency is the first number from a tenth of a hertz on:
`lowestFrequency ≤ f ↔ 1 / 10 ≤ f.toRat`. -/
theorem lowestFrequency_le_iff (hf : f.isFinite = true) :
    lowestFrequency ≤ f ↔ 1 / 10 ≤ f.toRat := by
  constructor
  · intro h
    obtain ⟨hfin, htenth⟩ := tenth_le_lowestFrequency
    exact htenth.trans ((Binary.le_iff_toRat hfin hf).mp h)
  · intro h
    exact Binary.round_le hf h false

/-! ## Two quotients -/

/-- The counts in a second, rounded. -/
def countRate (clock : Nat) : Rat := binary64.nearest (clock / 3)

/-- The counts in a period of so many hertz, rounded again and not yet cut off. -/
def countsIn (clock : Nat) (hertz : Rat) : Rat := binary64.nearest (countRate clock / hertz)

/-- The counts in a second are not negative: `0 ≤ countRate clock`. -/
theorem countRate_nonneg (clock : Nat) : 0 ≤ countRate clock := binary64.nearest_nonneg _

/-- The counts in a period are not negative: `0 ≤ countsIn clock hertz`. -/
theorem countsIn_nonneg (clock : Nat) (hertz : Rat) : 0 ≤ countsIn clock hertz :=
  binary64.nearest_nonneg _

/-- A lower frequency has no fewer counts in a period:
`countsIn clock high ≤ countsIn clock low`. -/
theorem countsIn_anti (clock : Nat) {low high : Rat} (hlow : 0 < low) (h : low ≤ high) :
    countsIn clock high ≤ countsIn clock low := by
  have hrate := countRate_nonneg clock
  have hhigh := hlow.trans_le h
  exact binary64.nearest_mono (by positivity) (div_le_div_of_nonneg_left hrate hlow h)

/-- A clock of 32 bits has at most `2 ^ 31` counts in a second. -/
theorem cast_div_three_le (h : clock < 2 ^ 32) : (clock : Rat) / 3 ≤ 2 ^ (31 : Int) := by
  have hcast : (clock : Rat) < 2 ^ 32 := by
    exact_mod_cast h
  rw [div_le_iff₀ (by norm_num), zpow_ofNat]
  linarith

/-- The first quotient is a finite number. -/
theorem rate_eq (h : clock < 2 ^ 32) :
    ∃ rate : Binary64, .ofNat clock / .ofNat cyclesPerCount = rate ∧ rate.isFinite = true ∧
      rate.negative = false ∧ rate.toRat = countRate clock := by
  obtain ⟨hfin, hval⟩ := Binary.toRat_ofNat_of_lt h
  obtain ⟨hfin', hval'⟩ := Binary.toRat_ofNat_of_lt (show cyclesPerCount < 2 ^ 32 by decide)
  have hvalue : (.ofNat clock : Binary64).toRat / (.ofNat cyclesPerCount : Binary64).toRat =
      clock / 3 := by
    rw [hval, hval', cyclesPerCount, Nat.cast_ofNat]
  have hrank : binary64.nearestRank (clock / 3) < binary64.infinityRank :=
    binary64.nearestRank_lt_infinityRank (by positivity) (cast_div_three_le h) (by decide)
      (by decide)
  refine ⟨.finite false ⟨_, hrank⟩, ?_, rfl, rfl, rfl⟩
  rw [Binary.div_eq_ofRank hfin hfin' (Binary.negative_ofNat _) (Binary.negative_ofNat _)
    (by rw [hval', cyclesPerCount]; norm_num), hvalue, Binary.ofRank_of_lt hrank]

/-- The second quotient, by ranks. -/
theorem quotient_eq (h : clock < 2 ^ 32) (hf : f.isFinite = true) (hpos : 0 < f.toRat) :
    (.ofNat clock / .ofNat cyclesPerCount / f : Binary64) =
      .ofRank false (binary64.nearestRank (countRate clock / f.toRat)) := by
  obtain ⟨rate, heq, hfin, hsign, hval⟩ := rate_eq h
  have hsign' : f.negative = false :=
    Binary.negative_of_pos ((Binary.lt_iff_toRat Binary.isFinite_zero hf).mpr (by simpa using hpos))
  rw [heq, Binary.div_eq_ofRank hfin hf hsign hsign' hpos.ne', hval]

/-- **Cut off.** The period is the whole part of the second quotient, if that fits 32 bits. -/
theorem toNat_period_eq (h : clock < 2 ^ 32) (hf : f.isFinite = true) (hpos : 0 < f.toRat) :
    (period clock f).toNat = min 4294967295 ⌊countsIn clock f.toRat⌋.toNat := by
  rw [toNat_period, quotient_eq h hf hpos, Binary.truncate_ofRank (by decide +kernel)]
  rfl

/-- **Higher frequencies** have no longer periods: `period clock g ≤ period clock f`. -/
theorem period_anti (h : clock < 2 ^ 32) (hf : f.isFinite = true) (hpos : 0 < f.toRat)
    (hg : g.isFinite = true) (hfg : f ≤ g) : period clock g ≤ period clock f := by
  have hle := (Binary.le_iff_toRat hf hg).mp hfg
  rw [UInt32.le_iff_toNat_le, toNat_period_eq h hf hpos, toNat_period_eq h hg (hpos.trans_le hle)]
  have hfloor := Int.floor_mono (countsIn_anti clock hpos hle)
  omega

/-! ## How far off -/

/-- The first quotient is at most `2 ^ -25` counts in a second off. -/
theorem abs_countRate_sub_le (h : clock ≤ 1288490188) :
    |countRate clock - clock / 3| ≤ 1 / 2 ^ 25 := by
  have hcast : (clock : Rat) ≤ 1288490188 := by
    exact_mod_cast h
  have hle : (clock : Rat) / 3 ≤ 2 ^ (29 : Int) := by
    rw [div_le_iff₀ (by norm_num), zpow_ofNat]
    linarith
  have herror := binary64.abs_nearest_sub_le (by positivity) hle (by decide)
  rw [fractionBits_binary64, show (29 : Int) - (52 : Nat) - 2 = -(25 : Nat) by decide, zpow_neg,
    zpow_natCast, ← one_div] at herror
  exact herror

/-- A tenth of a hertz or more makes the quotients of such clocks fit 32 bits:
`countRate clock / hertz ≤ 4294967294`. -/
theorem countRate_div_le (h : clock ≤ 1288490188) {hertz : Rat} (hlow : 1 / 10 ≤ hertz) :
    countRate clock / hertz ≤ 4294967294 := by
  have hcast : (clock : Rat) ≤ 1288490188 := by
    exact_mod_cast h
  have hrate := (abs_le.mp (abs_countRate_sub_le h)).2
  rw [div_le_iff₀ (by linarith)]
  linarith

/-- **How far off.** Both roundings together are at most `2 ^ -19` of a count off. -/
theorem abs_countsIn_sub_le (h : clock ≤ 1288490188) {hertz : Rat} (hlow : 1 / 10 ≤ hertz) :
    |countsIn clock hertz - clock / (3 * hertz)| ≤ 1 / 2 ^ 19 := by
  have hpos : 0 < hertz := by
    linarith
  have hle : countRate clock / hertz ≤ 2 ^ (32 : Int) :=
    (countRate_div_le h hlow).trans (by norm_num)
  have hsecond := binary64.abs_nearest_sub_le (div_nonneg (countRate_nonneg clock) hpos.le) hle
    (by decide)
  rw [fractionBits_binary64, show (32 : Int) - (52 : Nat) - 2 = -(22 : Nat) by decide, zpow_neg,
    zpow_natCast, ← one_div] at hsecond
  -- dividing by a tenth or more makes the first error at most ten times as large
  have hfirst : |countRate clock / hertz - clock / (3 * hertz)| ≤ 10 / 2 ^ 25 := by
    rw [← div_div, ← sub_div, abs_div, abs_of_pos hpos, div_le_iff₀ hpos]
    calc |countRate clock - clock / 3| ≤ 1 / 2 ^ 25 := abs_countRate_sub_le h
      _ ≤ 10 / 2 ^ 25 * hertz := by linarith
  calc |countsIn clock hertz - clock / (3 * hertz)|
      ≤ |countsIn clock hertz - countRate clock / hertz| +
          |countRate clock / hertz - clock / (3 * hertz)| := abs_sub_le _ _ _
    _ ≤ 1 / 2 ^ 22 + 10 / 2 ^ 25 := add_le_add hsecond hfirst
    _ ≤ 1 / 2 ^ 19 := by norm_num

/-- Down to a tenth of a hertz the counts in a period fit 32 bits:
`countsIn clock hertz ≤ 4294967294`. -/
theorem countsIn_le (h : clock ≤ 1288490188) {hertz : Rat} (hlow : 1 / 10 ≤ hertz) :
    countsIn clock hertz ≤ 4294967294 := by
  have hexact : binary64.nearest (4294967294 : Rat) = 4294967294 := by
    decide +kernel
  rw [← hexact]
  exact binary64.nearest_mono (div_nonneg (countRate_nonneg clock) (by linarith))
    (countRate_div_le h hlow)

/-- Up to a third of the clock there is at least one count in a period:
`1 ≤ countsIn clock f.toRat`. -/
theorem one_le_countsIn (hf : f.isFinite = true) (hpos : 0 < f.toRat) (h : f.toRat ≤ clock / 3) :
    1 ≤ countsIn clock f.toRat := by
  have hone : binary64.nearest 1 = 1 := by
    decide +kernel
  -- a number below the exact quotient is also below the rounded one
  have hrate : f.toRat ≤ countRate clock := by
    match f, hf, hpos, h with
    | .finite false rank, _, _, h => exact binary64.magnitude_le_nearest h
    | .finite true rank, _, hpos, _ =>
      exact absurd hpos (neg_nonpos.mpr (binary64.magnitude_nonneg rank)).not_gt
  rw [← hone]
  exact binary64.nearest_mono zero_le_one ((one_le_div hpos).mpr hrate)

/-! ## Periods that fit -/

/-- The second quotient is a finite number too. -/
theorem isFinite_quotient (h : clock ≤ 1288490188) (hf : f.isFinite = true)
    (hlow : 1 / 10 ≤ f.toRat) :
    (.ofNat clock / .ofNat cyclesPerCount / f : Binary64).isFinite = true ∧
      (.ofNat clock / .ofNat cyclesPerCount / f : Binary64).toRat = countsIn clock f.toRat := by
  have hpos : 0 < f.toRat := by
    linarith
  have hrank : binary64.nearestRank (countRate clock / f.toRat) < binary64.infinityRank :=
    binary64.nearestRank_lt_infinityRank (div_nonneg (countRate_nonneg clock) hpos.le)
      ((countRate_div_le h hlow).trans (by norm_num : (4294967294 : Rat) ≤ 2 ^ (32 : Int)))
      (by decide) (by decide)
  rw [quotient_eq (by omega) hf hpos, Binary.ofRank_of_lt hrank]
  exact ⟨rfl, rfl⟩

/-- The whole part of the quotient is below the limit, so the limit does not matter. -/
theorem toNat_period_eq_floor (h : clock ≤ 1288490188) (hf : f.isFinite = true)
    (hlow : 1 / 10 ≤ f.toRat) :
    ((period clock f).toNat : Int) = ⌊countsIn clock f.toRat⌋ ∧
      (period clock f).toNat < 4294967295 := by
  have hnonneg : 0 ≤ ⌊countsIn clock f.toRat⌋ := Int.floor_nonneg.mpr (countsIn_nonneg _ _)
  have hlt : ⌊countsIn clock f.toRat⌋ < 4294967295 := by
    rw [Int.floor_lt]
    exact (countsIn_le h hlow).trans_lt (by norm_num)
  rw [toNat_period_eq (by omega) hf (by linarith)]
  omega

/-- The period of a frequency that is generated: it fits 32 bits, and is the exact number of counts
without its fraction but for at most `2 ^ -19`. -/
structure PeriodFits (clock : Nat) (f : Binary64) : Prop where
  /-- First the period is queued, and then, after it was taken from the queue, half of it. -/
  generate_eq : ∀ pin, generate clock pin f =
    [.enable false, .clearQueues, .push (period clock f), .execute .pull, .execute .shift,
      .push (period clock f / 2), .enable true]
  /-- The half is cut off as well. -/
  half_eq : (period clock f / 2).toNat = (period clock f).toNat / 2
  /-- The quotient has a whole part. -/
  isFinite_quotient : (.ofNat clock / .ofNat cyclesPerCount / f : Binary64).isFinite = true
  /-- The period is that whole part, so 32 bits did not cut it off. -/
  floor_eq : ((period clock f).toNat : Int) =
    ⌊(.ofNat clock / .ofNat cyclesPerCount / f : Binary64).toRat⌋
  /-- It is below the last number of 32 bits, at which a longer one would be cut off. -/
  lt : (period clock f).toNat < 4294967295
  /-- It is less than one count and `2 ^ -19` below the exact quotient. -/
  above : clock / (3 * f.toRat) - 1 - 1 / 2 ^ 19 < (period clock f).toNat
  /-- It is at most `2 ^ -19` above it. -/
  le : (period clock f).toNat ≤ clock / (3 * f.toRat) + 1 / 2 ^ 19
  /-- It is not zero up to a third of the clock. -/
  pos : f.toRat ≤ clock / 3 → 1 ≤ (period clock f).toNat
  /-- Higher frequencies have no longer periods. -/
  anti : ∀ g, g.isFinite = true → f ≤ g → period clock g ≤ period clock f

/-- **Periods fit.** Up to the highest clock for which the lowest frequency fits 32 bits, every
finite frequency from a tenth of a hertz on has its period. -/
theorem periodFits (h : clock ≤ 1288490188) (hf : f.isFinite = true) (hlow : 1 / 10 ≤ f.toRat) :
    PeriodFits clock f := by
  have hpos : 0 < f.toRat := by
    linarith
  obtain ⟨hfin, hquotient⟩ := isFinite_quotient h hf hlow
  obtain ⟨hfloor, hlt⟩ := toNat_period_eq_floor h hf hlow
  -- cutting off takes less than one count, and the roundings add little to that
  obtain ⟨hbelow, habove⟩ := Int.floor_eq_iff.mp hfloor.symm
  rw [Int.cast_natCast] at hbelow habove
  obtain ⟨herror, herror'⟩ := abs_le.mp (abs_countsIn_sub_le h hlow)
  refine ⟨fun pin => ?_, UInt32.toNat_div _ _, hfin, ?_, hlt, by linarith, by linarith, ?_, ?_⟩
  · rw [generate, if_pos ((lowestFrequency_le_iff hf).mpr hlow)]
    rfl
  · rw [hquotient, hfloor]
  · intro hthird
    have hone := Int.le_floor.mpr (show ((1 : Int) : Rat) ≤ countsIn clock f.toRat by
      exact_mod_cast one_le_countsIn hf hpos hthird)
    omega
  · intro g hg hfg
    exact period_anti (by omega) hf hpos hg hfg

/-- The highest clock and the lowest frequency have the longest period, two counts below the end. -/
theorem periodFits_longest :
    lowestFrequency.isFinite = true ∧ 1 / 10 ≤ lowestFrequency.toRat ∧
      PeriodFits 1288490188 lowestFrequency ∧
      period 1288490188 lowestFrequency = 4294967293 := by
  obtain ⟨hfin, hlow⟩ := tenth_le_lowestFrequency
  exact ⟨hfin, hlow, periodFits le_rfl hfin hlow, by decide +kernel⟩

-- with a clock of one hertz more the longest period is cut off at the limit
example : period 1288490189 lowestFrequency = 4294967295 := by
  decide +kernel

end Tachometer.Wave
