import Tachometer.Proofs.Binary.Arithmetic

/-! # How far rounding goes

A rational that is not negative is rounded to the nearest whole number of units, where the unit is
that of its binade. Here the rounded magnitude is a rational of its own, apart from signs and from
the end of the finite numbers.

* `abs_roundHalfEven_sub_le_abs`, `roundHalfEven_eq` — the nearest integer, and when it is a given
  one.
* `Format.nearest` — the magnitude nearest to a rational.
* `Format.nearest_eq_mul` — the nearest magnitude in units of a binade.
* `Format.abs_nearest_sub_le` — rounding goes half a unit at most.
* `Format.abs_nearest_sub_le_abs` — no number of the format is nearer than the nearest.
* `Binary.round_ite_neg`, `Binary.convert_finite` — rounding and converting numbers with a sign. -/

namespace Tachometer

/-! ## The nearest integer -/

/-- **The nearest integer** is at most one half away: `|(roundHalfEven q : Rat) - q| ≤ 1 / 2`. -/
theorem abs_roundHalfEven_sub_le (q : Rat) : |(roundHalfEven q : Rat) - q| ≤ 1 / 2 := by
  have hle : (q.floor : Rat) ≤ q := Int.floor_le q
  have hlt : q < q.floor + 1 := Int.lt_floor_add_one q
  unfold roundHalfEven
  dsimp only
  rw [abs_le]
  split_ifs <;> push_cast <;> constructor <;> linarith

/-- An integer that is less than one half away is the nearest: `roundHalfEven q = k`. -/
theorem roundHalfEven_eq_of_abs_lt {q : Rat} {k : Int} (h : |q - k| < 1 / 2) :
    roundHalfEven q = k := by
  -- both integers are near `q`, so there is no room for a step between them
  have hround := abs_le.mp (abs_roundHalfEven_sub_le q)
  obtain ⟨hlow, hhigh⟩ := abs_lt.mp h
  have hlt : (roundHalfEven q : Rat) < k + 1 := by
    linarith
  have hgt : (k : Rat) < roundHalfEven q + 1 := by
    linarith
  norm_cast at hlt hgt
  omega

/-- The nearest integer of a tie is even: `roundHalfEven q % 2 = 0`. -/
theorem even_roundHalfEven {q : Rat} (h : |q - roundHalfEven q| = 1 / 2) :
    roundHalfEven q % 2 = 0 := by
  have hle : (q.floor : Rat) ≤ q := Int.floor_le q
  have hlt : q < q.floor + 1 := Int.lt_floor_add_one q
  unfold roundHalfEven at h ⊢
  dsimp only at h ⊢
  split_ifs at h ⊢ with hlow hhigh heven
  · rw [abs_of_nonneg (by linarith)] at h
    linarith
  · push_cast at h
    rw [abs_of_nonpos (by linarith)] at h
    linarith
  · exact heven
  · omega

/-- A half more than an integer is rounded to the even neighbour:
`roundHalfEven (k + 1 / 2 : Rat) % 2 = 0`. -/
theorem roundHalfEven_add_half_emod (k : Int) : roundHalfEven (k + 1 / 2 : Rat) % 2 = 0 := by
  have hfloor : ⌊(k + 1 / 2 : Rat)⌋ = k :=
    Int.floor_eq_iff.mpr ⟨by linarith, by linarith⟩
  have hbelow : (k + 1 / 2 : Rat).floor = k := hfloor
  unfold roundHalfEven
  dsimp only
  rw [hbelow, add_sub_cancel_left, if_neg (lt_irrefl _), if_neg (lt_irrefl _)]
  split_ifs with heven
  · exact heven
  · omega

/-- **The nearest integer is a given one** if it is less than one half away, or one half and even:
`roundHalfEven q = k`. -/
theorem roundHalfEven_eq {q : Rat} {k : Int} (h : |q - k| ≤ 1 / 2)
    (heven : |q - k| = 1 / 2 → k % 2 = 0) : roundHalfEven q = k := by
  rcases h.lt_or_eq with hlt | heq
  · exact roundHalfEven_eq_of_abs_lt hlt
  · -- in a tie the nearest integer is this one or a neighbour, which would be odd
    have hround := abs_le.mp (abs_roundHalfEven_sub_le q)
    have hk := heven heq
    obtain ⟨hlow, hhigh⟩ := abs_le.mp h
    have hle : (roundHalfEven q : Rat) ≤ k + 1 := by
      linarith
    have hge : (k : Rat) ≤ roundHalfEven q + 1 := by
      linarith
    norm_cast at hle hge
    by_contra hne
    have htie : |q - roundHalfEven q| = 1 / 2 := by
      rcases (show roundHalfEven q = k + 1 ∨ roundHalfEven q = k - 1 by omega) with hr | hr
      · rw [hr] at hround ⊢
        push_cast at hround ⊢
        rw [abs_of_nonpos (by linarith)]
        linarith
      · rw [hr] at hround ⊢
        push_cast at hround ⊢
        rw [abs_of_nonneg (by linarith)]
        linarith
    have := even_roundHalfEven htie
    omega

/-- No integer is nearer than the nearest: `|(roundHalfEven q : Rat) - q| ≤ |(k : Rat) - q|`. -/
theorem abs_roundHalfEven_sub_le_abs (q : Rat) (k : Int) :
    |(roundHalfEven q : Rat) - q| ≤ |(k : Rat) - q| := by
  rcases lt_or_ge |q - k| (1 / 2) with h | h
  · rw [roundHalfEven_eq_of_abs_lt h]
  · rw [abs_sub_comm (k : Rat)]
    exact (abs_roundHalfEven_sub_le q).trans h

namespace Format

variable (f : Format)

/-! ## The nearest magnitude -/

/-- The rank nearest to a rational that is not negative, as if ranks had no end. -/
def nearestRank (q : Rat) : Nat := if q = 0 then 0 else f.rankOf q

/-- The magnitude nearest to a rational that is not negative, as if magnitudes had no end. -/
def nearest (q : Rat) : Rat := f.magnitude (f.nearestRank q)

/-- Zero is a magnitude, that of the first rank: `f.nearestRank 0 = 0`. -/
@[simp] theorem nearestRank_zero : f.nearestRank 0 = 0 := rfl

/-- Zero is its own nearest magnitude: `f.nearest 0 = 0`. -/
@[simp] theorem nearest_zero : f.nearest 0 = 0 := f.magnitude_zero

/-- For a positive number the nearest rank is the one that rounding finds:
`f.nearestRank q = f.rankOf q`. -/
theorem nearestRank_of_pos {q : Rat} (hq : 0 < q) : f.nearestRank q = f.rankOf q :=
  if_neg hq.ne'

/-- Magnitudes are not negative: `0 ≤ f.nearest q`. -/
theorem nearest_nonneg (q : Rat) : 0 ≤ f.nearest q := f.magnitude_nonneg _

/-- A larger number has no lower nearest rank: `q ≤ r` gives `f.nearestRank q ≤ f.nearestRank r`. -/
theorem nearestRank_mono {q r : Rat} (hq : 0 ≤ q) (h : q ≤ r) :
    f.nearestRank q ≤ f.nearestRank r := by
  rcases hq.eq_or_lt with rfl | hpos
  · exact Nat.zero_le _
  · rw [f.nearestRank_of_pos hpos, f.nearestRank_of_pos (hpos.trans_le h)]
    exact f.rankOf_mono hpos h

/-- **Monotonicity.** A larger number has no lower nearest magnitude: `q ≤ r` gives
`f.nearest q ≤ f.nearest r`. -/
theorem nearest_mono {q r : Rat} (hq : 0 ≤ q) (h : q ≤ r) : f.nearest q ≤ f.nearest r :=
  f.magnitude_le_iff.mpr (f.nearestRank_mono hq h)

/-- A magnitude has its own rank as the nearest: `f.nearestRank (f.magnitude rank) = rank`. -/
@[simp] theorem nearestRank_magnitude (rank : Nat) : f.nearestRank (f.magnitude rank) = rank := by
  rcases rank.eq_zero_or_pos with rfl | h
  · simp
  · rw [f.nearestRank_of_pos (f.magnitude_pos h), f.rankOf_magnitude h]

/-- **Magnitudes stay.** `f.nearest (f.magnitude rank) = f.magnitude rank`. -/
@[simp] theorem nearest_magnitude (rank : Nat) :
    f.nearest (f.magnitude rank) = f.magnitude rank := by
  rw [nearest, nearestRank_magnitude]

/-- Few enough units of a power of two that is not too small are their own nearest magnitude:
`f.nearest (digits * 2 ^ unit) = digits * 2 ^ unit`. -/
theorem nearest_natCast_mul {digits : Nat} {unit : Int} (hd : digits ≤ 2 * f.binade)
    (hmin : f.minExponent ≤ unit) : f.nearest (digits * 2 ^ unit) = digits * 2 ^ unit := by
  obtain ⟨rank, hrank⟩ := f.exists_magnitude_eq hd hmin
  rw [← hrank, nearest_magnitude]

/-- The nearest magnitude lies on the same side of a magnitude: `f.nearest q ≤ f.magnitude rank`. -/
theorem nearest_le_magnitude {q : Rat} (hq : 0 ≤ q) {rank : Nat} (h : q ≤ f.magnitude rank) :
    f.nearest q ≤ f.magnitude rank :=
  (f.nearest_mono hq h).trans_eq (f.nearest_magnitude rank)

/-- Rounding does not fall below a magnitude: if it is at most `q`, then
`f.magnitude rank ≤ f.nearest q`. -/
theorem magnitude_le_nearest {q : Rat} {rank : Nat} (h : f.magnitude rank ≤ q) :
    f.magnitude rank ≤ f.nearest q :=
  (f.nearest_magnitude rank).symm.trans_le (f.nearest_mono (f.magnitude_nonneg rank) h)

/-- Rounding does not pass a power of two: `q ≤ 2 ^ k` gives `f.nearest q ≤ 2 ^ k`. -/
theorem nearest_le_two_zpow {q : Rat} {k : Int} (hq : 0 ≤ q) (h : q ≤ 2 ^ k)
    (hmin : f.minExponent ≤ k) : f.nearest q ≤ 2 ^ k := by
  obtain ⟨rank, hrank⟩ := f.exists_magnitude_eq
    (show 1 ≤ 2 * f.binade by have := f.binade_pos; omega) hmin
  rw [Nat.cast_one, one_mul] at hrank
  rw [← hrank] at h ⊢
  exact f.nearest_le_magnitude hq h

/-! ## Units -/

/-- **Rounding at the level of a rational.** -/
theorem nearest_eq_quantum {q : Rat} (hq : 0 < q) :
    f.nearest q = roundHalfEven (q / 2 ^ f.quantumExponent q) * 2 ^ f.quantumExponent q := by
  have hnonneg : 0 ≤ roundHalfEven (q / 2 ^ f.quantumExponent q) := by
    rw [← roundHalfEven_intCast 0]
    exact roundHalfEven_mono (by positivity)
  have hlow := f.minExponent_le_quantumExponent q
  obtain ⟨level, hlevel⟩ : ∃ level : Nat, f.quantumExponent q = f.minExponent + level :=
    ⟨(f.quantumExponent q - f.minExponent).toNat, by omega⟩
  obtain ⟨digits, hdigits⟩ := Int.eq_ofNat_of_zero_le hnonneg
  have hle : digits ≤ 2 * f.binade := by
    have := f.roundHalfEven_scaled_le hq
    rw [hdigits] at this
    exact_mod_cast this
  -- above the lowest level the digits fill a binade, so the rank can be taken apart again
  have hfull : level = 0 ∨ f.binade ≤ digits := by
    rcases Nat.eq_zero_or_pos level with h | h
    · exact .inl h
    · have := f.le_roundHalfEven_scaled hq (by omega)
      rw [hdigits] at this
      exact .inr (by exact_mod_cast this)
  have hrank : f.rankOf q = level * f.binade + digits := by
    rw [rankOf, hdigits, hlevel, Int.toNat_natCast, add_sub_cancel_left, Int.toNat_natCast]
  rw [nearest, f.nearestRank_of_pos hq, hrank, f.magnitude_level hle hfull, hdigits, hlevel]
  rfl

/-- **Rounding in a binade.** Between one and two binades of units a rational is rounded to the
nearest whole number of them: `f.nearest q = roundHalfEven (q / 2 ^ unit) * 2 ^ unit`. -/
theorem nearest_eq_mul {q : Rat} (unit : Int) (hmin : f.minExponent ≤ unit)
    (hlow : f.binade * 2 ^ unit ≤ q) (hhigh : q ≤ 2 * f.binade * 2 ^ unit) :
    f.nearest q = roundHalfEven (q / 2 ^ unit) * 2 ^ unit := by
  have hunit : (0 : Rat) < 2 ^ unit := by
    positivity
  rcases hhigh.eq_or_lt with rfl | hlt
  · -- two full binades of units are a magnitude, and a whole number
    have hcast : (2 * f.binade * 2 ^ unit : Rat) = ((2 * f.binade : Nat) : Rat) * 2 ^ unit := by
      push_cast
      rfl
    rw [hcast, f.nearest_natCast_mul le_rfl hmin, mul_div_cancel_right₀ _ hunit.ne',
      roundHalfEven_natCast]
    rfl
  · have hbinade : (0 : Rat) < f.binade := by
      exact_mod_cast f.binade_pos
    have hq : 0 < q := (mul_pos hbinade hunit).trans_le hlow
    obtain ⟨level, rfl⟩ : ∃ level : Nat, unit = f.minExponent + level :=
      ⟨(unit - f.minExponent).toNat, by omega⟩
    rw [f.nearest_eq_quantum hq, f.quantumExponent_eq hq hlt (.inr hlow)]

/-- **The nearest magnitude is a given one** in a binade if it is less than half a unit away, or
half a unit and even: `f.nearest q = digits * 2 ^ unit`. -/
theorem nearest_eq_of_abs_le {q : Rat} (unit digits : Int) (hmin : f.minExponent ≤ unit)
    (hlow : f.binade * 2 ^ unit ≤ q) (hhigh : q ≤ 2 * f.binade * 2 ^ unit)
    (h : |q - digits * 2 ^ unit| ≤ 2 ^ unit / 2)
    (heven : |q - digits * 2 ^ unit| = 2 ^ unit / 2 → digits % 2 = 0) :
    f.nearest q = digits * 2 ^ unit := by
  have hunit : (0 : Rat) < 2 ^ unit := by
    positivity
  have hscaled : |q / 2 ^ unit - digits| = |q - digits * 2 ^ unit| / 2 ^ unit := by
    rw [← abs_of_pos hunit, ← abs_div, abs_of_pos hunit, sub_div, mul_div_cancel_right₀ _ hunit.ne']
  rw [f.nearest_eq_mul unit hmin hlow hhigh]
  congr 2
  refine roundHalfEven_eq ?_ fun htie => heven ?_
  · rw [hscaled, div_le_iff₀ hunit]
    linarith
  · rw [hscaled, div_eq_iff hunit.ne'] at htie
    linarith

/-- Inside a binade the distance alone decides, as no end of the binade is between:
`f.nearest q = digits * 2 ^ unit`. -/
theorem nearest_eq_of_inside {q : Rat} {unit : Int} {digits : Nat} (hmin : f.minExponent ≤ unit)
    (hlow : f.binade < digits) (hhigh : digits < 2 * f.binade)
    (h : |q - digits * 2 ^ unit| ≤ 2 ^ unit / 2)
    (heven : |q - digits * 2 ^ unit| = 2 ^ unit / 2 → digits % 2 = 0) :
    f.nearest q = digits * 2 ^ unit := by
  have hunit : (0 : Rat) < 2 ^ unit := by
    positivity
  have hbelow : (f.binade + 1 : Rat) ≤ digits := by
    exact_mod_cast hlow
  have habove : (digits + 1 : Rat) ≤ 2 * f.binade := by
    exact_mod_cast hhigh
  have hmulBelow := mul_le_mul_of_nonneg_right hbelow hunit.le
  have hmulAbove := mul_le_mul_of_nonneg_right habove hunit.le
  obtain ⟨hleft, hright⟩ := abs_le.mp h
  refine f.nearest_eq_of_abs_le unit digits hmin (by linarith) (by linarith) h fun htie => ?_
  have := heven htie
  omega

/-- Inside a binade this is the only way that a magnitude is the nearest. -/
theorem abs_le_of_nearest_eq_inside {q : Rat} {unit : Int} {digits : Nat} (hq : 0 ≤ q)
    (hmin : f.minExponent ≤ unit) (hlow : f.binade < digits) (hhigh : digits < 2 * f.binade)
    (h : f.nearest q = digits * 2 ^ unit) :
    |q - digits * 2 ^ unit| ≤ 2 ^ unit / 2 ∧
      (|q - digits * 2 ^ unit| = 2 ^ unit / 2 → digits % 2 = 0) := by
  have hunit : (0 : Rat) < 2 ^ unit := by
    positivity
  -- the ends of the binade are magnitudes, so `q` cannot be past them
  have hbelow : (f.binade : Rat) * 2 ^ unit ≤ q := by
    by_contra hlt
    have hnearest := f.nearest_mono hq (not_le.mp hlt).le
    rw [h, f.nearest_natCast_mul (by omega) hmin] at hnearest
    exact absurd (by exact_mod_cast le_of_mul_le_mul_right hnearest hunit) hlow.not_ge
  have habove : q ≤ 2 * f.binade * 2 ^ unit := by
    by_contra hlt
    have hcast : (2 * f.binade * 2 ^ unit : Rat) = ((2 * f.binade : Nat) : Rat) * 2 ^ unit := by
      push_cast
      rfl
    have hnearest := f.nearest_mono (by positivity) (not_le.mp hlt).le
    rw [h, hcast, f.nearest_natCast_mul le_rfl hmin] at hnearest
    exact absurd (by exact_mod_cast le_of_mul_le_mul_right hnearest hunit) hhigh.not_ge
  have hround : roundHalfEven (q / 2 ^ unit) = (digits : Int) := by
    rw [f.nearest_eq_mul unit hmin hbelow habove] at h
    exact_mod_cast mul_right_cancel₀ hunit.ne' h
  have hscaled : |q - digits * 2 ^ unit| = |(digits : Rat) - q / 2 ^ unit| * 2 ^ unit := by
    rw [← abs_of_pos hunit, ← abs_mul, abs_of_pos hunit, sub_mul, div_mul_cancel₀ _ hunit.ne',
      abs_sub_comm]
  have hclose := abs_roundHalfEven_sub_le (q / 2 ^ unit)
  have htie := even_roundHalfEven (q := q / 2 ^ unit)
  rw [hround, Int.cast_natCast] at hclose htie
  rw [hscaled, div_eq_mul_one_div (2 ^ unit) (2 : Rat), mul_comm (2 ^ unit : Rat)]
  constructor
  · gcongr
  · intro heq
    rw [abs_sub_comm] at htie
    have := htie (mul_right_cancel₀ hunit.ne' heq)
    omega

/-! ## Distances -/

/-- A rational is rounded by half a unit of its level at most:
`|f.nearest q - q| ≤ 2 ^ f.quantumExponent q / 2`. -/
theorem abs_nearest_sub_le_quantum {q : Rat} (hq : 0 < q) :
    |f.nearest q - q| ≤ 2 ^ f.quantumExponent q / 2 := by
  have hunit : (0 : Rat) < 2 ^ f.quantumExponent q := by
    positivity
  have hround := abs_roundHalfEven_sub_le (q / 2 ^ f.quantumExponent q)
  rw [← mul_le_mul_iff_left₀ hunit, ← abs_of_pos hunit, ← abs_mul, abs_of_pos hunit, sub_mul,
    div_mul_cancel₀ _ hunit.ne', ← f.nearest_eq_quantum hq] at hround
  linarith

/-- **How far rounding goes.** A rational up to a power of two is rounded by half a unit of the
binade below that power at most: `|f.nearest q - q| ≤ 2 ^ (k - f.fractionBits - 2)`. -/
theorem abs_nearest_sub_le {q : Rat} {k : Int} (hq : 0 ≤ q) (h : q ≤ 2 ^ k)
    (hmin : f.minExponent ≤ k - f.fractionBits - 1) :
    |f.nearest q - q| ≤ 2 ^ (k - f.fractionBits - 2) := by
  rcases hq.eq_or_lt with rfl | hpos
  · simp
    positivity
  · rcases h.eq_or_lt with rfl | hlt
    · -- a power of two is a magnitude
      have hone : (2 : Rat) ^ k = ((1 : Nat) : Rat) * 2 ^ k := by
        simp
      have hb := f.binade_pos
      rw [hone, f.nearest_natCast_mul (by omega) (by omega), sub_self, abs_zero]
      positivity
    · have hlog := (floorLog2_lt_iff hpos).mpr hlt
      have hquantum : f.quantumExponent q ≤ k - f.fractionBits - 2 + 1 := by
        unfold quantumExponent
        omega
      have hpow : (2 : Rat) ^ f.quantumExponent q ≤ 2 ^ (k - f.fractionBits - 2 + 1) :=
        zpow_le_zpow_right₀ one_le_two hquantum
      rw [zpow_add_one₀ two_ne_zero] at hpow
      have := f.abs_nearest_sub_le_quantum hpos
      linarith

/-- No whole number of units is nearer than the nearest magnitude:
`|f.nearest q - q| ≤ |digits * 2 ^ f.quantumExponent q - q|`. -/
theorem abs_nearest_sub_le_abs_mul {q : Rat} (hq : 0 < q) (digits : Int) :
    |f.nearest q - q| ≤ |digits * 2 ^ f.quantumExponent q - q| := by
  have hunit : (0 : Rat) < 2 ^ f.quantumExponent q := by
    positivity
  have hround := abs_roundHalfEven_sub_le_abs (q / 2 ^ f.quantumExponent q) digits
  rwa [← mul_le_mul_iff_left₀ hunit, ← abs_of_pos hunit, ← abs_mul, ← abs_mul, abs_of_pos hunit,
    sub_mul, sub_mul, div_mul_cancel₀ _ hunit.ne', ← f.nearest_eq_quantum hq] at hround

/-- **No number of the format is nearer** than the nearest:
`|f.nearest q - q| ≤ |f.magnitude rank - q|`. -/
theorem abs_nearest_sub_le_abs {q : Rat} (hq : 0 < q) (rank : Nat) :
    |f.nearest q - q| ≤ |f.magnitude rank - q| := by
  obtain ⟨level, digits, rfl, hlt, h⟩ := f.exists_level rank
  rw [f.magnitude_level hlt.le h]
  rcases le_or_gt (f.quantumExponent q) (f.minExponent + level) with hle | hgt
  · -- a larger unit is a whole number of smaller ones
    obtain ⟨gap, hgap⟩ := Int.le.dest hle
    have hwhole : (digits : Rat) * 2 ^ (f.minExponent + level) =
        ((digits * 2 ^ gap : Int) : Rat) * 2 ^ f.quantumExponent q := by
      rw [← hgap, zpow_add₀ two_ne_zero, zpow_natCast]
      push_cast
      ring
    rw [hwhole]
    exact f.abs_nearest_sub_le_abs_mul hq _
  · -- a smaller unit is that of a lower binade, whose end is nearer
    have hend : ((f.binade : Int) : Rat) * 2 ^ f.quantumExponent q ≤ q := by
      have hscaled := f.le_scaled hq (by omega)
      rw [le_div_iff₀ (by positivity)] at hscaled
      exact_mod_cast hscaled
    have hbelow : (digits : Rat) * 2 ^ (f.minExponent + level) ≤
        ((f.binade : Int) : Rat) * 2 ^ f.quantumExponent q := by
      have hdigits : (digits : Rat) ≤ 2 * f.binade := by
        exact_mod_cast hlt.le
      have hpow : (2 : Rat) ^ (f.minExponent + level + 1) ≤ 2 ^ f.quantumExponent q :=
        zpow_le_zpow_right₀ one_le_two hgt
      rw [zpow_add_one₀ two_ne_zero] at hpow
      have hbinade : (0 : Rat) ≤ f.binade := Nat.cast_nonneg _
      push_cast
      calc (digits : Rat) * 2 ^ (f.minExponent + level)
          ≤ 2 * f.binade * 2 ^ (f.minExponent + level) := by gcongr
        _ = f.binade * (2 ^ (f.minExponent + level) * 2) := by ring
        _ ≤ f.binade * 2 ^ f.quantumExponent q := by gcongr
    refine (f.abs_nearest_sub_le_abs_mul hq f.binade).trans ?_
    rw [abs_of_nonpos (by linarith), abs_of_nonpos (by linarith)]
    linarith

/-! ## The ends of the finite numbers -/

/-- What is less than half the least positive magnitude is rounded to zero:
`f.nearestRank q = 0`. -/
theorem nearestRank_eq_zero {q : Rat} (hq : 0 ≤ q) (h : q < 2 ^ (f.minExponent - 1)) :
    f.nearestRank q = 0 := by
  rcases hq.eq_or_lt with rfl | hpos
  · rfl
  · have hunit : (0 : Rat) < 2 ^ f.minExponent := by
      positivity
    have hhalf : q < 2 ^ f.minExponent / 2 := by
      rwa [zpow_sub_one₀ two_ne_zero, ← div_eq_mul_inv] at h
    have hlow : q < 2 * f.binade * 2 ^ (f.minExponent + (0 : Nat)) := by
      have hbinade : (1 : Rat) ≤ f.binade := by
        exact_mod_cast f.binade_pos
      rw [Nat.cast_zero, add_zero]
      nlinarith
    -- it is at the lowest level, where less than half a unit is rounded away
    have hquantum : f.quantumExponent q = f.minExponent := by
      simpa using f.quantumExponent_eq hpos hlow (.inl rfl)
    have hround : roundHalfEven (q / 2 ^ f.minExponent) = 0 := by
      refine roundHalfEven_eq_of_abs_lt ?_
      rw [Int.cast_zero, sub_zero, abs_of_pos (by positivity), div_lt_iff₀ hunit]
      linarith
    have hzero : f.nearest q = 0 := by
      rw [f.nearest_eq_quantum hpos, hquantum, hround, Int.cast_zero, zero_mul]
    by_contra hne
    exact (f.magnitude_pos (Nat.pos_of_ne_zero hne)).ne' hzero

/-- What is past the end of the finite numbers is not rounded to one:
`f.infinityRank ≤ f.nearestRank q`. -/
theorem infinityRank_le_nearestRank {q : Rat} (h : 2 ^ 2 ^ (f.exponentBits - 1) ≤ q) :
    f.infinityRank ≤ f.nearestRank q := by
  rw [← f.magnitude_infinityRank] at h
  rw [← f.magnitude_le_iff]
  exact f.magnitude_le_nearest h

/-- What is not past a power of two of the format has a finite nearest number:
`f.nearestRank q < f.infinityRank`. -/
theorem nearestRank_lt_infinityRank {q : Rat} {k : Int} (hq : 0 ≤ q) (h : q ≤ 2 ^ k)
    (hmin : f.minExponent ≤ k) (hmax : k < (2 ^ (f.exponentBits - 1) : Nat)) :
    f.nearestRank q < f.infinityRank := by
  rw [f.lt_infinityRank_iff]
  calc f.nearest q ≤ 2 ^ k := f.nearest_le_two_zpow hq h hmin
    _ < 2 ^ 2 ^ (f.exponentBits - 1) := by
      rw [← zpow_natCast (2 : Rat)]
      exact zpow_lt_zpow_right₀ one_lt_two hmax

/-! ## The two formats -/

/-- The 32-bit format has 23 bits after the point: `binary32.fractionBits = 23`. -/
theorem fractionBits_binary32 : binary32.fractionBits = 23 := rfl

/-- A binade of the 32-bit format has `2 ^ 23` ranks. -/
theorem binade_binary32 : binary32.binade = 2 ^ 23 := by decide

/-- The smallest unit of the 32-bit format is `2 ^ (-149)`. -/
theorem minExponent_binary32 : binary32.minExponent = -149 := by decide

/-- The 64-bit format has 52 bits after the point: `binary64.fractionBits = 52`. -/
theorem fractionBits_binary64 : binary64.fractionBits = 52 := rfl

/-- A binade of the 64-bit format has `2 ^ 52` ranks. -/
theorem binade_binary64 : binary64.binade = 2 ^ 52 := by decide

/-- The smallest unit of the 64-bit format is `2 ^ (-1074)`. -/
theorem minExponent_binary64 : binary64.minExponent = -1074 := by decide

end Format

namespace Binary

variable {f g : Format}

/-! ## Numbers with a sign -/

/-- The first rank is that of the zeros: `ofRank s 0 = signedZero s`. -/
theorem ofRank_zero (s : Bool) : (ofRank s 0 : Binary f) = signedZero s :=
  dif_pos f.infinityRank_pos

/-- Ranks past the finite ones are all infinity: `ofRank s rank = infinity s`. -/
theorem ofRank_of_le {rank : Nat} (h : f.infinityRank ≤ rank) (s : Bool) :
    (ofRank s rank : Binary f) = infinity s := dif_neg (Nat.not_lt.mpr h)

/-- A rational with a sign is rounded to the number of that sign and the nearest rank. -/
theorem round_ite_neg (s : Bool) {q : Rat} (hq : 0 ≤ q) :
    (round s (if s then -q else q) : Binary f) = ofRank s (f.nearestRank q) := by
  rcases hq.eq_or_lt with rfl | hpos
  · rw [f.nearestRank_zero, ofRank_zero, neg_zero, ite_self, round_zero]
  · rw [f.nearestRank_of_pos hpos]
    cases s with
    | false =>
      rw [if_neg Bool.false_ne_true, round, if_neg hpos.ne', if_neg hpos.not_gt]
    | true =>
      rw [if_pos rfl, round, if_neg (neg_ne_zero.mpr hpos.ne'), if_pos (neg_lt_zero.mpr hpos),
        neg_neg]

/-- What is not negative is rounded to its nearest rank:
`round false q = ofRank false (f.nearestRank q)`. -/
theorem round_of_nonneg {q : Rat} (hq : 0 ≤ q) :
    (round false q : Binary f) = ofRank false (f.nearestRank q) :=
  round_ite_neg false hq

/-- A rank below that of infinity is one of a finite number:
`ofRank s rank = finite s ⟨rank, h⟩`. -/
theorem ofRank_of_lt {rank : Nat} (h : rank < f.infinityRank) (s : Bool) :
    (ofRank s rank : Binary f) = finite s ⟨rank, h⟩ := dif_pos h

/-- A rank is one of a finite number exactly if it is below that of infinity:
`(ofRank s rank).isFinite = true ↔ rank < f.infinityRank`. -/
theorem isFinite_ofRank_iff (s : Bool) (rank : Nat) :
    (ofRank s rank : Binary f).isFinite = true ↔ rank < f.infinityRank := by
  unfold ofRank
  split
  case isTrue h => exact ⟨fun _ => h, fun _ => rfl⟩
  case isFalse h => exact ⟨fun hfin => absurd hfin (by simp [isFinite]), fun hlt => absurd hlt h⟩

/-- A conversion keeps the sign and rounds the magnitude. -/
theorem convert_finite (s : Bool) (rank : Fin f.infinityRank) :
    (convert (finite s rank) : Binary g) = ofRank s (g.nearestRank (f.magnitude rank)) := by
  have hround : (convert (finite s rank) : Binary g) =
      round s (if s then -f.magnitude rank else f.magnitude rank) := by
    cases s <;> rfl
  rw [hround, round_ite_neg s (f.magnitude_nonneg rank)]

/-! ## Numbers without a minus -/

/-- Without a minus the value is not negative: `0 ≤ x.toRat`. -/
theorem toRat_nonneg_of_negative {x : Binary f} (hx : x.negative = false) : 0 ≤ x.toRat := by
  match x, hx with
  | .nan, _ => exact le_rfl
  | .infinity s, _ => exact le_rfl
  | .finite false rank, _ => exact f.magnitude_nonneg rank

/-- The product of finite numbers without a minus is the magnitude nearest to the exact product:
`x * y = ofRank false (f.nearestRank (x.toRat * y.toRat))`. -/
theorem mul_eq_ofRank {x y : Binary f} (hx : x.isFinite = true) (hy : y.isFinite = true)
    (hxsign : x.negative = false) (hysign : y.negative = false) :
    x * y = ofRank false (f.nearestRank (x.toRat * y.toRat)) := by
  rw [mul_eq_round hx hy, hxsign, hysign]
  exact round_of_nonneg (mul_nonneg (toRat_nonneg_of_negative hxsign)
    (toRat_nonneg_of_negative hysign))

/-- The quotient of finite numbers without a minus is the magnitude nearest to the exact quotient:
`x / y = ofRank false (f.nearestRank (x.toRat / y.toRat))`. -/
theorem div_eq_ofRank {x y : Binary f} (hx : x.isFinite = true) (hy : y.isFinite = true)
    (hxsign : x.negative = false) (hysign : y.negative = false) (h : y.toRat ≠ 0) :
    x / y = ofRank false (f.nearestRank (x.toRat / y.toRat)) := by
  rw [div_eq_round hx hy h, hxsign, hysign]
  exact round_of_nonneg (div_nonneg (toRat_nonneg_of_negative hxsign)
    (toRat_nonneg_of_negative hysign))

/-- A sum is rounded by ranks, also where it starts past the end of the finite numbers. -/
theorem ofRank_add (rank : Nat) {y : Binary f} (hy : y.isFinite = true)
    (hysign : y.negative = false) :
    ofRank false rank + y = ofRank false (f.nearestRank (f.magnitude rank + y.toRat)) := by
  have hnonneg := toRat_nonneg_of_negative hysign
  match y, hy, hysign with
  | .finite false b, _, _ =>
    by_cases h : rank < f.infinityRank
    · rw [ofRank_of_lt h]
      exact round_of_nonneg (add_nonneg (f.magnitude_nonneg rank) hnonneg)
    · -- an infinity stays one, and the exact sum is past the end as well
      have hrank := Nat.not_lt.mp h
      have hend : (2 : Rat) ^ 2 ^ (f.exponentBits - 1) ≤ f.magnitude rank := by
        rw [← f.magnitude_infinityRank]
        exact f.magnitude_le_iff.mpr hrank
      rw [ofRank_of_le hrank, ofRank_of_le (f.infinityRank_le_nearestRank (by linarith))]
      rfl

/-- A number is cut off at a limit in the range of the format, also where it is past the end of the
finite numbers. -/
theorem truncate_ofRank {limit : Nat} (h : (limit : Rat) ≤ 2 ^ 2 ^ (f.exponentBits - 1))
    (rank : Nat) :
    (ofRank false rank : Binary f).truncate limit = min limit (f.magnitude rank).floor.toNat := by
  by_cases hlt : rank < f.infinityRank
  · rw [ofRank_of_lt hlt]
    rfl
  · -- an infinity is cut off at the limit, and so is what is past the end
    have hrank := Nat.not_lt.mp hlt
    have hle : ((limit : Int) : Rat) ≤ f.magnitude rank := by
      rw [Int.cast_natCast]
      refine h.trans ?_
      rw [← f.magnitude_infinityRank]
      exact f.magnitude_le_iff.mpr hrank
    have hfloor := Rat.le_floor_iff.mpr hle
    rw [ofRank_of_le hrank]
    show limit = _
    omega

end Binary

end Tachometer
