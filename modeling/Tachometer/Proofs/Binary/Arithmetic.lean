import Tachometer.Binary.Arithmetic
import Tachometer.Proofs.Binary.Nearest

/-! # Arithmetic and conversions keep the order

An operation on finite numbers is the exact operation followed by rounding, so bounds on exact
results carry over.

* `Binary.convert_mono` — a conversion keeps the order.
* `Format.Fits`, `Binary.isFinite_convert` — a conversion to a format that has every number of the
  old one is exact, and the conversion back undoes it: `Binary.convert_convert`.
* `Binary.sub_le_self`, `Binary.le_sub_self`, `Binary.sub_le_sub_right` — differences.
* `Binary.mul_nonneg`, `Binary.mul_nonpos` — products.
* `Binary.toRat_ofNat`, `Binary.exists_toRat_eq_two_zpow` — small natural numbers and powers of two
  are exact. -/

namespace Tachometer

/-- Every number of a format is one of the other. -/
structure Format.Fits (f g : Format) : Prop where
  /-- A significand fits. -/
  fractionBits_le : f.fractionBits ≤ g.fractionBits
  /-- The smallest unit is there. -/
  minExponent_le : g.minExponent ≤ f.minExponent
  /-- The finite numbers do not end earlier. -/
  exponentBits_le : f.exponentBits ≤ g.exponentBits

/-- The 32-bit format fits the 64-bit format. -/
theorem Format.binary32_fits_binary64 : binary32.Fits binary64 := ⟨by decide, by decide, by decide⟩

namespace Binary

variable {f g : Format} {x y z : Binary f}

/-! ## Conversions -/

/-- A finite number is converted by rounding its value:
`(convert x : Binary g) = round x.negative x.toRat`. -/
theorem convert_of_isFinite (hx : x.isFinite = true) :
    (convert x : Binary g) = round x.negative x.toRat := by
  match x, hx with
  | .finite s rank, _ => rfl

/-- Zero is zero in every format: `(convert (0 : Binary f) : Binary g) = 0`. -/
@[simp] theorem convert_zero : (convert (0 : Binary f) : Binary g) = 0 := by
  rw [convert_of_isFinite isFinite_zero, toRat_zero, round_zero]
  rfl

/-- A conversion does not lose a number: `(convert x : Binary g) ≠ nan`. -/
theorem convert_ne_nan (hx : x ≠ nan) : (convert x : Binary g) ≠ nan := by
  match x, hx with
  | .infinity s, _ => simp
  | .finite s rank, _ => exact round_ne_nan s _

/-- **Conversions keep the order:** `x ≤ y` gives `(convert x : Binary g) ≤ convert y`. -/
theorem convert_mono (h : x ≤ y) : (convert x : Binary g) ≤ convert y := by
  obtain ⟨hx, hy⟩ := ne_nan_of_le h
  by_cases hxfin : x.isFinite = true
  · by_cases hyfin : y.isFinite = true
    · -- finite numbers are in the order of their values, and rounding keeps it
      rw [convert_of_isFinite hxfin, convert_of_isFinite hyfin]
      exact round_mono ((le_iff_toRat hxfin hyfin).mp h) _ _
    · -- an infinity that is at least a finite number is past all of them
      obtain ⟨t, rfl⟩ := eq_infinity hy hyfin
      cases t with
      | false => exact le_infinity (convert_ne_nan hx)
      | true => exact absurd (eq_infinity_of_ge h ▸ hxfin) (by simp [isFinite])
  · obtain ⟨s, rfl⟩ := eq_infinity hx hxfin
    cases s with
    | false =>
      rw [eq_infinity_of_le h]
      exact le_refl_of_ne_nan (by simp)
    | true => exact infinity_le (convert_ne_nan hy)

/-! ## Conversions to a larger format -/

/-- Every finite number has its value in a format that fits:
`∃ y : Binary g, y.isFinite = true ∧ y.toRat = x.toRat`. -/
theorem exists_toRat_eq (hfg : f.Fits g) (hx : x.isFinite = true) :
    ∃ y : Binary g, y.isFinite = true ∧ y.toRat = x.toRat := by
  match x, hx with
  | .finite s rank, _ =>
    obtain ⟨rank', hrank⟩ :=
      f.exists_magnitude_eq_magnitude hfg.fractionBits_le hfg.minExponent_le rank
    have hpow : 2 ^ (f.exponentBits - 1) ≤ 2 ^ (g.exponentBits - 1) :=
      Nat.pow_le_pow_right two_pos (Nat.sub_le_sub_right hfg.exponentBits_le 1)
    -- the finite numbers of the other format end no earlier
    have hlt : rank' < g.infinityRank := by
      rw [g.lt_infinityRank_iff, hrank]
      calc f.magnitude rank < 2 ^ 2 ^ (f.exponentBits - 1) := f.lt_infinityRank_iff.mp rank.isLt
        _ ≤ 2 ^ 2 ^ (g.exponentBits - 1) := pow_le_pow_right₀ one_le_two hpow
    -- its sign is that of the old number
    refine ⟨.finite s ⟨rank', hlt⟩, rfl, ?_⟩
    cases s <;> simp [toRat, hrank]

/-- **A conversion to a format that fits is exact.** -/
theorem isFinite_convert (hfg : f.Fits g) (hx : x.isFinite = true) :
    (convert x : Binary g).isFinite = true ∧ (convert x : Binary g).toRat = x.toRat := by
  obtain ⟨y, hy, hval⟩ := exists_toRat_eq hfg hx
  rw [convert_of_isFinite hx, ← hval]
  exact isFinite_round_toRat hy x.negative

/-- A conversion keeps the sign of a finite number, also where it is rounded to zero:
`(convert x : Binary g).negative = x.negative`. -/
theorem negative_convert (hx : x.isFinite = true) :
    (convert x : Binary g).negative = x.negative := by
  rw [convert_of_isFinite hx, negative_round]
  split_ifs with h
  · rfl
  · match x, hx with
    | .finite s rank, _ => cases s <;> simp [toRat_neg_iff h, negative]

/-- **There and back.** The conversion back from a format that fits gives the number again:
`(convert (convert x : Binary g) : Binary f) = x`. -/
@[simp] theorem convert_convert (hfg : f.Fits g) (x : Binary f) :
    (convert (convert x : Binary g) : Binary f) = x := by
  match x with
  | .nan => rfl
  | .infinity s => rfl
  | .finite s rank =>
    obtain ⟨hfin, hval⟩ := isFinite_convert hfg (x := .finite s rank) rfl
    rw [convert_of_isFinite hfin, hval, negative_convert rfl]
    exact round_toRat rfl

/-- A conversion to a format that fits keeps the order in both directions:
`(convert x : Binary g) ≤ convert y ↔ x ≤ y`. -/
theorem convert_le_convert_iff (hfg : f.Fits g) :
    (convert x : Binary g) ≤ convert y ↔ x ≤ y := by
  refine ⟨?_, convert_mono⟩
  intro h
  have hback : (convert (convert x : Binary g) : Binary f) ≤ convert (convert y : Binary g) :=
    convert_mono h
  rwa [convert_convert hfg, convert_convert hfg] at hback

/-- A conversion to a format that fits keeps the strict order:
`(convert x : Binary g) < convert y ↔ x < y`. -/
theorem convert_lt_convert_iff (hfg : f.Fits g) (hx : x ≠ nan) (hy : y ≠ nan) :
    (convert x : Binary g) < convert y ↔ x < y := by
  rw [← Binary.not_le (convert_ne_nan hy) (convert_ne_nan hx), ← Binary.not_le hy hx,
    convert_le_convert_iff hfg]

/-! ## Sums and differences -/

/-- A minus is one of the value: `(-x).toRat = -x.toRat`. -/
theorem toRat_neg (x : Binary f) : (-x).toRat = -x.toRat := by
  match x with
  | .nan => rfl
  | .infinity s => rfl
  | .finite false rank => rfl
  | .finite true rank => exact (neg_neg (f.magnitude rank)).symm

/-- A minus does not change whether a number is finite: `(-x).isFinite = x.isFinite`. -/
@[simp] theorem isFinite_neg (x : Binary f) : (-x).isFinite = x.isFinite := by
  cases x <;> rfl

/-- A difference of finite numbers is the exact difference, rounded. -/
theorem sub_eq_round (hx : x.isFinite = true) (hy : y.isFinite = true) :
    x - y = round (x.negative && !y.negative) (x.toRat - y.toRat) := by
  match x, y, hx, hy with
  | .finite s a, .finite t b, _, _ =>
    rw [sub_eq_add_neg, ← toRat_neg]
    rfl

/-- An infinity taken from a finite number leaves the opposite infinity:
`x - infinity s = infinity !s`. -/
theorem sub_infinity (hx : x.isFinite = true) (s : Bool) : x - infinity s = infinity !s := by
  match x, hx with
  | .finite t rank, _ => rfl

/-- A number taken from a finite one leaves a number: `x - y ≠ nan`. -/
theorem sub_ne_nan (hx : x.isFinite = true) (hy : y ≠ nan) : x - y ≠ nan := by
  by_cases h : y.isFinite = true
  · rw [sub_eq_round hx h]
    exact round_ne_nan _ _
  · obtain ⟨s, rfl⟩ := eq_infinity hy h
    rw [sub_infinity hx]
    simp

/-- An infinity from which a finite number is taken stays: `infinity s - y = infinity s`. -/
theorem infinity_sub (s : Bool) (hy : y.isFinite = true) : infinity s - y = infinity s := by
  match y, hy with
  | .finite t rank, _ => rfl

/-- **Taking away what is not negative** gives no more than before. -/
protected theorem sub_le_self (hx : x.isFinite = true) (hy : 0 ≤ y) : x - y ≤ x := by
  by_cases h : y.isFinite = true
  · have hval := toRat_nonneg h hy
    rw [sub_eq_round hx h]
    exact round_le hx (by linarith) _
  · obtain ⟨s, rfl⟩ := eq_infinity (ne_nan_of_le hy).2 h
    rw [sub_infinity hx, (infinity_nonneg_iff s).mp hy]
    exact infinity_le (ne_nan_of_isFinite hx)

/-- **Taking away what is not positive** gives no less than before. -/
protected theorem le_sub_self (hx : x.isFinite = true) (hy : y ≤ 0) : x ≤ x - y := by
  by_cases h : y.isFinite = true
  · have hval : y.toRat ≤ 0 := by
      simpa using (le_iff_toRat h isFinite_zero).mp hy
    rw [sub_eq_round hx h]
    exact le_round hx (by linarith) _
  · obtain ⟨s, rfl⟩ := eq_infinity (ne_nan_of_le hy).1 h
    rw [sub_infinity hx, (infinity_nonpos_iff s).mp hy]
    exact le_infinity (ne_nan_of_isFinite hx)

/-- Taking the same from a larger number gives no less: `x - y ≤ z - y`. -/
protected theorem sub_le_sub_right (hx : x.isFinite = true) (hz : z.isFinite = true) (h : x ≤ z)
    (hy : y ≠ nan) : x - y ≤ z - y := by
  by_cases hfin : y.isFinite = true
  · rw [sub_eq_round hx hfin, sub_eq_round hz hfin]
    exact round_mono (sub_le_sub_right ((le_iff_toRat hx hz).mp h) _) _ _
  · obtain ⟨s, rfl⟩ := eq_infinity hy hfin
    rw [sub_infinity hx, sub_infinity hz]
    exact le_refl_of_ne_nan (by simp)

/-! ## Products and quotients -/

/-- Without its sign a number has the magnitude of its rank:
`|(finite negative rank).toRat| = f.magnitude rank`. -/
theorem abs_toRat_finite (negative : Bool) (rank : Fin f.infinityRank) :
    |(finite negative rank : Binary f).toRat| = f.magnitude rank := by
  have hnonneg := f.magnitude_nonneg rank
  cases negative with
  | false => exact abs_of_nonneg hnonneg
  | true => exact (abs_neg _).trans (abs_of_nonneg hnonneg)

/-- No finite number is past the end of the finite numbers:
`|x.toRat| < 2 ^ 2 ^ (f.exponentBits - 1)`. -/
theorem abs_toRat_lt (hx : x.isFinite = true) : |x.toRat| < 2 ^ 2 ^ (f.exponentBits - 1) := by
  match x, hx with
  | .finite s rank, _ =>
    rw [abs_toRat_finite]
    exact f.lt_infinityRank_iff.mp rank.isLt

/-- A product of finite numbers is the exact product, rounded:
`x * y = round (x.negative != y.negative) (x.toRat * y.toRat)`. -/
theorem mul_eq_round (hx : x.isFinite = true) (hy : y.isFinite = true) :
    x * y = round (x.negative != y.negative) (x.toRat * y.toRat) := by
  match x, y, hx, hy with
  | .finite s a, .finite t b, _, _ => rfl

/-- A product of finite numbers that are not negative is not negative: `0 ≤ x * y`. -/
protected theorem mul_nonneg (hx : x.isFinite = true) (hy : y.isFinite = true) (hxpos : 0 ≤ x)
    (hypos : 0 ≤ y) : 0 ≤ x * y := by
  rw [mul_eq_round hx hy]
  exact round_nonneg (mul_nonneg (toRat_nonneg hx hxpos) (toRat_nonneg hy hypos)) _

/-- A product of finite numbers, one not negative and the other not positive, is not positive:
`x * y ≤ 0`. -/
protected theorem mul_nonpos (hx : x.isFinite = true) (hy : y.isFinite = true) (hxpos : 0 ≤ x)
    (hyneg : y ≤ 0) : x * y ≤ 0 := by
  have hval : y.toRat ≤ 0 := by
    simpa using (le_iff_toRat hy isFinite_zero).mp hyneg
  rw [mul_eq_round hx hy]
  exact round_nonpos (mul_nonpos_of_nonneg_of_nonpos (toRat_nonneg hx hxpos) hval) _

/-- A quotient of finite numbers by what is not zero is the exact quotient, rounded:
`x / y = round (x.negative != y.negative) (x.toRat / y.toRat)`. -/
theorem div_eq_round (hx : x.isFinite = true) (hy : y.isFinite = true) (h : y.toRat ≠ 0) :
    x / y = round (x.negative != y.negative) (x.toRat / y.toRat) := by
  match x, y, hx, hy with
  | .finite s a, .finite t b, _, _ =>
    have hb : b.val ≠ 0 := by
      intro hb
      refine h ?_
      cases t <;> simp [toRat, hb]
    show Binary.div _ _ = _
    rw [Binary.div, if_neg hb]
    rfl

/-! ## Natural numbers and powers of two -/

/-- Few enough units, of a power of two in the range of the format, are a number of the format. -/
theorem exists_toRat_eq_mul {digits : Nat} {unit : Int} (hd : digits ≤ 2 * f.binade)
    (hmin : f.minExponent ≤ unit)
    (hlt : (digits : Rat) * 2 ^ unit < 2 ^ 2 ^ (f.exponentBits - 1)) :
    ∃ x : Binary f, x.isFinite = true ∧ x.toRat = digits * 2 ^ unit := by
  obtain ⟨rank, hrank⟩ := f.exists_magnitude_eq hd hmin
  have hrank_lt : rank < f.infinityRank := by
    rw [f.lt_infinityRank_iff, hrank]
    exact hlt
  exact ⟨finite false ⟨rank, hrank_lt⟩, rfl, hrank⟩

/-- **Small natural numbers are exact.** -/
theorem toRat_ofNat {n : Nat} (hn : n ≤ 2 * f.binade) (hmin : f.minExponent ≤ 0)
    (hlt : (n : Rat) < 2 ^ 2 ^ (f.exponentBits - 1)) :
    (ofNat n : Binary f).isFinite = true ∧ (ofNat n : Binary f).toRat = n := by
  obtain ⟨x, hx, hval⟩ := exists_toRat_eq_mul hn hmin (by simpa using hlt)
  rw [zpow_zero, mul_one] at hval
  rw [ofNat, ← hval]
  exact isFinite_round_toRat hx false

/-- Natural numbers of 32 bits are exact in the larger format. -/
theorem toRat_ofNat_of_lt {n : Nat} (h : n < 2 ^ 32) :
    (ofNat n : Binary64).isFinite = true ∧ (ofNat n : Binary64).toRat = n := by
  have hbinade : 2 ^ 32 ≤ 2 * Format.binary64.binade := by
    decide
  have hcast : (n : Rat) < 2 ^ 32 := by
    exact_mod_cast h
  exact toRat_ofNat (by omega) (by decide)
    (hcast.trans (pow_lt_pow_right₀ one_lt_two (by decide)))

/-- A natural number has no minus, not even as zero: `(ofNat n : Binary f).negative = false`. -/
@[simp] theorem negative_ofNat (n : Nat) : (ofNat n : Binary f).negative = false := by
  rw [ofNat, negative_round]
  split_ifs
  · rfl
  · exact decide_eq_false (Nat.cast_nonneg n).not_gt

/-- **Powers of two** in the range of the format are exact:
`∃ x : Binary f, x.isFinite = true ∧ x.toRat = 2 ^ k`. -/
theorem exists_toRat_eq_two_zpow {k : Int} (hmin : f.minExponent ≤ k)
    (hmax : k < (2 ^ (f.exponentBits - 1) : Nat)) :
    ∃ x : Binary f, x.isFinite = true ∧ x.toRat = 2 ^ k := by
  have hlt : (2 : Rat) ^ k < 2 ^ 2 ^ (f.exponentBits - 1) := by
    rw [← zpow_natCast (2 : Rat)]
    exact zpow_lt_zpow_right₀ one_lt_two hmax
  have hone : 1 ≤ 2 * f.binade := by
    have := f.binade_pos
    omega
  obtain ⟨x, hx, hval⟩ := exists_toRat_eq_mul hone hmin (by simpa using hlt)
  exact ⟨x, hx, by simpa using hval⟩

/-- What is not past a power of two is not past it when it is rounded. -/
theorem round_le_two_zpow {q : Rat} {k : Int} (hmin : f.minExponent ≤ k)
    (hmax : k < (2 ^ (f.exponentBits - 1) : Nat)) (hq : 0 ≤ q) (h : q ≤ 2 ^ k) (s : Bool) :
    (round s q : Binary f).isFinite = true ∧ (round s q : Binary f).toRat ≤ 2 ^ k := by
  obtain ⟨x, hx, hval⟩ := exists_toRat_eq_two_zpow hmin hmax
  have hle : (round s q : Binary f) ≤ x := round_le hx (h.trans hval.ge) s
  have hfin := isFinite_of_between isFinite_zero hx (round_nonneg hq s) hle
  rw [le_iff_toRat hfin hx, hval] at hle
  exact ⟨hfin, hle⟩

/-- What is of either sign and not past a power of two is not past it when it is rounded. -/
theorem abs_round_le_two_zpow {q : Rat} {k : Int} (hmin : f.minExponent ≤ k)
    (hmax : k < (2 ^ (f.exponentBits - 1) : Nat)) (h : |q| ≤ 2 ^ k) (s : Bool) :
    (round s q : Binary f).isFinite = true ∧ |(round s q : Binary f).toRat| ≤ 2 ^ k := by
  obtain ⟨hlow, hhigh⟩ := abs_le.mp h
  obtain ⟨x, hx, hval⟩ := exists_toRat_eq_two_zpow hmin hmax
  have hneg : (-x).isFinite = true := by
    rwa [isFinite_neg]
  have hnegval : (-x).toRat = -2 ^ k := by
    rw [toRat_neg, hval]
  -- the rounded number lies between the power and its opposite
  have hge : -x ≤ round s q := le_round hneg (hnegval.trans_le hlow) s
  have hle : round s q ≤ x := round_le hx (hhigh.trans hval.ge) s
  have hfin := isFinite_of_between hneg hx hge hle
  rw [le_iff_toRat hneg hfin, hnegval] at hge
  rw [le_iff_toRat hfin hx, hval] at hle
  exact ⟨hfin, abs_le.mpr ⟨hge, hle⟩⟩

/-- What is of either sign and not past a power of two is finite when it is rounded:
`(round s q : Binary f).isFinite = true`. -/
theorem isFinite_round {q : Rat} {k : Int} (hmin : f.minExponent ≤ k)
    (hmax : k < (2 ^ (f.exponentBits - 1) : Nat)) (h : |q| ≤ 2 ^ k) (s : Bool) :
    (round s q : Binary f).isFinite = true := (abs_round_le_two_zpow hmin hmax h s).1

/-- What is at least a power of two is at least that when it is rounded:
`2 ^ k ≤ (round s q : Binary f).toRat`. -/
theorem two_zpow_le_round {q : Rat} {k : Int} {s : Bool} (hmin : f.minExponent ≤ k)
    (hmax : k < (2 ^ (f.exponentBits - 1) : Nat)) (h : 2 ^ k ≤ q)
    (hfin : (round s q : Binary f).isFinite = true) :
    2 ^ k ≤ (round s q : Binary f).toRat := by
  obtain ⟨x, hx, hval⟩ := exists_toRat_eq_two_zpow hmin hmax
  have hle : x ≤ (round s q : Binary f) := le_round hx (hval.le.trans h) s
  rwa [le_iff_toRat hx hfin, hval] at hle

end Binary

end Tachometer
