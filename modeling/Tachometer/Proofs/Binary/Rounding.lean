import Mathlib.Algebra.Order.Floor.Ring
import Mathlib.Data.Rat.Floor
import Tachometer.Binary.Rounding
import Tachometer.Proofs.Binary.Magnitude

/-! # Rounding to a rank

The rank nearest to a rational is monotone in the rational and gives back the rank of a number
that has one. Both together bound a rounded result by any number of the format that bounds the
exact one.

* `roundHalfEven_mono`, `roundHalfEven_intCast` — the nearest integer.
* `le_floorLog2_iff`, `floorLog2_lt_iff` — the binade of a positive rational.
* `Format.rankOf_mono` — larger rationals have larger ranks.
* `Format.rankOf_magnitude` — the number of a rank has that rank. -/

namespace Tachometer

/-! ## The nearest integer -/

/-- Rounding to integers keeps the order: `q ≤ r` gives `roundHalfEven q ≤ roundHalfEven r`. -/
theorem roundHalfEven_mono {q r : Rat} (h : q ≤ r) : roundHalfEven q ≤ roundHalfEven r := by
  have hq : (q.floor : Rat) ≤ q := Int.floor_le q
  have hr : r < r.floor + 1 := Int.lt_floor_add_one r
  have hfloor : q.floor ≤ r.floor := Int.floor_mono h
  unfold roundHalfEven
  rcases hfloor.eq_or_lt with heq | hlt
  · -- over one floor the rest decides, and a larger rest rounds no lower
    rw [heq] at hq ⊢
    dsimp only
    split_ifs <;> first | omega | linarith
  · dsimp only
    split_ifs <;> omega

/-- Integers are not rounded: `roundHalfEven k = k`. -/
@[simp] theorem roundHalfEven_intCast (k : Int) : roundHalfEven (k : Rat) = k := by
  simp [roundHalfEven, Rat.floor_intCast]

/-- Natural numbers are not rounded: `roundHalfEven k = k`. -/
@[simp] theorem roundHalfEven_natCast (k : Nat) : roundHalfEven (k : Rat) = k := by
  exact_mod_cast roundHalfEven_intCast k

/-! ## The binade -/

/-- **The binade of a positive rational.** The estimate from the binary lengths is right or one
too large. -/
theorem floorLog2_bounds {q : Rat} (hq : 0 < q) :
    (2 : Rat) ^ floorLog2 q ≤ q ∧ q < (2 : Rat) ^ (floorLog2 q + 1) := by
  have hnum : q.num.natAbs ≠ 0 := by
    simpa using (Rat.num_pos.mpr hq).ne'
  have hden : (0 : Rat) < q.den := by
    exact_mod_cast q.den_pos
  have hval : q * q.den = q.num.natAbs := by
    have habs : ((q.num.natAbs : Int) : Rat) = q.num := by
      rw [Int.natAbs_of_nonneg (Rat.num_pos.mpr hq).le]
    rw [Rat.mul_den_eq_num, ← habs, Int.cast_natCast]
  -- numerator and denominator each lie in the binade of their binary length
  have hnum_ge : (2 : Rat) ^ q.num.natAbs.log2 ≤ q.num.natAbs := by
    exact_mod_cast Nat.log2_self_le hnum
  have hnum_lt : (q.num.natAbs : Rat) < 2 ^ (q.num.natAbs.log2 + 1) := by
    exact_mod_cast Nat.lt_log2_self
  have hden_ge : (2 : Rat) ^ q.den.log2 ≤ q.den := by
    exact_mod_cast Nat.log2_self_le q.den_nz
  have hden_lt : (q.den : Rat) < 2 ^ (q.den.log2 + 1) := by
    exact_mod_cast Nat.lt_log2_self
  -- so the quotient is less than a binade away from the difference of the lengths
  have hlow : (2 : Rat) ^ ((q.num.natAbs.log2 : Int) - q.den.log2 - 1) ≤ q := by
    rw [zpow_sub₀ two_ne_zero, zpow_sub₀ two_ne_zero, zpow_natCast, zpow_natCast, zpow_one,
      div_div, div_le_iff₀ (by positivity)]
    calc (2 : Rat) ^ q.num.natAbs.log2 ≤ q * q.den := by rw [hval]; exact hnum_ge
      _ ≤ q * (2 ^ q.den.log2 * 2) := by rw [← pow_succ]; gcongr
  have hhigh : q < (2 : Rat) ^ ((q.num.natAbs.log2 : Int) - q.den.log2 + 1) := by
    rw [zpow_add₀ two_ne_zero, zpow_sub₀ two_ne_zero, zpow_natCast, zpow_natCast, zpow_one,
      div_mul_eq_mul_div, lt_div_iff₀ (by positivity)]
    calc q * 2 ^ q.den.log2 ≤ q * q.den := by gcongr
      _ < 2 ^ q.num.natAbs.log2 * 2 := by rw [hval, ← pow_succ]; exact hnum_lt
  unfold floorLog2
  dsimp only
  split_ifs with h
  · exact ⟨h, hhigh⟩
  · exact ⟨hlow, by simpa using not_le.mp h⟩

/-- The logarithm is below an exponent exactly if the number is below the power:
`floorLog2 q < e ↔ q < 2 ^ e`. -/
theorem floorLog2_lt_iff {q : Rat} (hq : 0 < q) {e : Int} :
    floorLog2 q < e ↔ q < (2 : Rat) ^ e := by
  obtain ⟨hge, hlt⟩ := floorLog2_bounds hq
  constructor
  · intro h
    exact hlt.trans_le (zpow_le_zpow_right₀ one_le_two (by omega))
  · intro h
    exact (zpow_lt_zpow_iff_right₀ one_lt_two).mp (hge.trans_lt h)

/-- The logarithm reaches an exponent exactly if the number reaches the power:
`e ≤ floorLog2 q ↔ 2 ^ e ≤ q`. -/
theorem le_floorLog2_iff {q : Rat} (hq : 0 < q) {e : Int} :
    e ≤ floorLog2 q ↔ (2 : Rat) ^ e ≤ q := by
  rw [← not_lt, floorLog2_lt_iff hq, not_lt]

namespace Format

variable (f : Format)

/-! ## Level and digits of a rational -/

/-- No unit is below the smallest one: `f.minExponent ≤ f.quantumExponent q`. -/
theorem minExponent_le_quantumExponent (q : Rat) : f.minExponent ≤ f.quantumExponent q :=
  le_max_left ..

/-- **The level of a rational** is the one whose two binades of units it lies in:
`f.quantumExponent q = f.minExponent + level`. -/
theorem quantumExponent_eq {q : Rat} (hq : 0 < q) {level : Nat}
    (hlt : q < 2 * f.binade * 2 ^ (f.minExponent + level))
    (h : level = 0 ∨ f.binade * 2 ^ (f.minExponent + level) ≤ q) :
    f.quantumExponent q = f.minExponent + level := by
  have hbinade : ∀ e : Int, (f.binade : Rat) * 2 ^ e = 2 ^ (f.fractionBits + e) := by
    intro e
    rw [binade_eq_two_pow, zpow_add₀ two_ne_zero, zpow_natCast]
    push_cast
    rfl
  have hbelow : floorLog2 q < f.fractionBits + (f.minExponent + level) + 1 := by
    rw [floorLog2_lt_iff hq, zpow_add_one₀ two_ne_zero, ← hbinade]
    linarith
  unfold quantumExponent
  rcases h with rfl | hge
  · omega
  · rw [hbinade, ← le_floorLog2_iff hq] at hge
    omega

/-- Larger numbers have no smaller units: `q ≤ r` gives
`f.quantumExponent q ≤ f.quantumExponent r`. -/
theorem quantumExponent_mono {q r : Rat} (hq : 0 < q) (h : q ≤ r) :
    f.quantumExponent q ≤ f.quantumExponent r := by
  have hlog : floorLog2 q ≤ floorLog2 r :=
    (le_floorLog2_iff (hq.trans_le h)).mpr ((floorLog2_bounds hq).1.trans h)
  unfold quantumExponent
  omega

/-- In units of its level a positive rational is less than two binades. -/
theorem scaled_le {q : Rat} (hq : 0 < q) :
    q / (2 : Rat) ^ f.quantumExponent q ≤ ((2 * f.binade : Nat) : Rat) := by
  have hunit : (0 : Rat) < 2 ^ f.quantumExponent q := by
    positivity
  have hlog : floorLog2 q + 1 ≤ f.fractionBits + 1 + f.quantumExponent q := by
    unfold quantumExponent
    omega
  rw [div_le_iff₀ hunit, binade_eq_two_pow]
  push_cast
  calc q ≤ 2 ^ (floorLog2 q + 1) := (floorLog2_bounds hq).2.le
    _ ≤ 2 ^ ((f.fractionBits : Int) + 1 + f.quantumExponent q) :=
      zpow_le_zpow_right₀ one_le_two hlog
    _ = 2 * 2 ^ f.fractionBits * 2 ^ f.quantumExponent q := by
      rw [zpow_add₀ two_ne_zero, zpow_add_one₀ two_ne_zero, zpow_natCast]
      ring

/-- In units of a level above the lowest it is at least one binade:
`(f.binade : Rat) ≤ q / (2 : Rat) ^ f.quantumExponent q`. -/
theorem le_scaled {q : Rat} (hq : 0 < q) (h : f.minExponent < f.quantumExponent q) :
    (f.binade : Rat) ≤ q / (2 : Rat) ^ f.quantumExponent q := by
  have hunit : (0 : Rat) < 2 ^ f.quantumExponent q := by
    positivity
  have hlog : (f.fractionBits : Int) + f.quantumExponent q ≤ floorLog2 q := by
    unfold quantumExponent at h ⊢
    omega
  rw [le_div_iff₀ hunit, binade_eq_two_pow]
  push_cast
  calc (2 : Rat) ^ f.fractionBits * 2 ^ f.quantumExponent q
      = 2 ^ ((f.fractionBits : Int) + f.quantumExponent q) := by
        rw [zpow_add₀ two_ne_zero, zpow_natCast]
    _ ≤ 2 ^ floorLog2 q := zpow_le_zpow_right₀ one_le_two hlog
    _ ≤ q := (floorLog2_bounds hq).1

/-- The nearest number of units is at most two binades. -/
theorem roundHalfEven_scaled_le {q : Rat} (hq : 0 < q) :
    roundHalfEven (q / (2 : Rat) ^ f.quantumExponent q) ≤ (2 * f.binade : Nat) := by
  rw [← roundHalfEven_natCast (2 * f.binade)]
  exact roundHalfEven_mono (f.scaled_le hq)

/-- Above the lowest level the nearest number of units is at least one binade. -/
theorem le_roundHalfEven_scaled {q : Rat} (hq : 0 < q)
    (h : f.minExponent < f.quantumExponent q) :
    (f.binade : Int) ≤ roundHalfEven (q / (2 : Rat) ^ f.quantumExponent q) := by
  rw [← roundHalfEven_natCast f.binade]
  exact roundHalfEven_mono (f.le_scaled hq h)

/-! ## The nearest rank -/

/-- **Monotonicity.** Larger rationals have larger ranks: `f.rankOf q ≤ f.rankOf r`. -/
theorem rankOf_mono {q r : Rat} (hq : 0 < q) (h : q ≤ r) : f.rankOf q ≤ f.rankOf r := by
  have hr := hq.trans_le h
  have hmin := f.minExponent_le_quantumExponent q
  unfold rankOf
  dsimp only
  rcases (f.quantumExponent_mono hq h).eq_or_lt with heq | hlt
  · rw [heq]
    have hdigits : q / (2 : Rat) ^ f.quantumExponent r ≤ r / (2 : Rat) ^ f.quantumExponent r := by
      gcongr
    exact Nat.add_le_add_left (Int.toNat_le_toNat (roundHalfEven_mono hdigits)) _
  · -- the digits of the lower level are at most two binades, those of the upper at least one
    have hlow := f.roundHalfEven_scaled_le hq
    have hhigh := f.le_roundHalfEven_scaled hr (hmin.trans_lt hlt)
    have hlevel : (f.quantumExponent q - f.minExponent).toNat + 1 ≤
        (f.quantumExponent r - f.minExponent).toNat := by
      omega
    have hranks := Nat.mul_le_mul_right f.binade hlevel
    rw [Nat.add_mul] at hranks
    omega

/-- **The rank of a number that has one** is that rank: `f.rankOf (f.magnitude rank) = rank`. -/
theorem rankOf_magnitude {rank : Nat} (h : 0 < rank) : f.rankOf (f.magnitude rank) = rank := by
  have hpos := f.magnitude_pos h
  obtain ⟨level, digits, rfl, hlt, hlevel⟩ := f.exists_level rank
  have hunit : (0 : Rat) < 2 ^ (f.minExponent + level) := by
    positivity
  have hvalue := f.magnitude_level hlt.le hlevel
  -- the number is rounded at the level of its rank, where its digits are whole
  have hquantum : f.quantumExponent (f.magnitude (level * f.binade + digits)) =
      f.minExponent + level := by
    refine f.quantumExponent_eq hpos ?_ (hlevel.imp_right fun hge => ?_)
    · rw [hvalue]
      have hcast : (digits : Rat) < 2 * f.binade := by
        exact_mod_cast hlt
      exact mul_lt_mul_of_pos_right hcast hunit
    · rw [hvalue]
      have hcast : (f.binade : Rat) ≤ digits := by
        exact_mod_cast hge
      exact mul_le_mul_of_nonneg_right hcast hunit.le
  unfold rankOf
  dsimp only
  rw [hquantum, hvalue, mul_div_cancel_right₀ _ hunit.ne', roundHalfEven_natCast,
    add_sub_cancel_left, Int.toNat_natCast, Int.toNat_natCast]

end Format

end Tachometer
