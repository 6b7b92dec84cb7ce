import Tachometer.Proofs.Clock.Microseconds

/-! # Microseconds after six places

A count of microseconds is printed as seconds with six places and read again. The nearest 64-bit
number of these seconds is not exact, and times a million it misses the count by its **excess**.
Adding a half and cutting off takes back an excess of up to a half, unless the product is itself
rounded to more than the count: from `2 ^ 51` microseconds on the units are a half and from `2 ^ 52`
on a whole, so that a larger excess goes up. Past `2 ^ 53` only counts that were rounded to the
same units before are read, and these come back.

* `Span.secondsOf`, `Span.excess` — the number that is read for a count, and its excess.
* `Span.drift` — how many microseconds too many come back.
* `Span.microsecondsOf_secondsOf` — every count that was read before comes back with its drift.
* `Span.drift_eq_zero` — where there is none. -/

namespace Tachometer.Span

open Format

/-- The number of seconds that is read for a count of microseconds. -/
def secondsOf (count : Nat) : Rat := binary64.nearest (count / 1000000)

/-- By how many microseconds these seconds are too long. -/
def excess (count : Nat) : Rat := secondsOf count * 1000000 - count

/-- How many microseconds too many come back: one where half microseconds are told apart and the
excess is more than half of that, two where only whole ones are and the excess is more than half of
one. -/
def drift (count : Nat) : Nat :=
  if count < 2 ^ 52 then if 1 / 4 < excess count then 1 else 0
  else if count < 2 ^ 53 then if 1 / 2 < excess count then 2 else 0
  else 0

/-- The seconds that are read for a count are not negative: `0 ≤ secondsOf count`. -/
theorem secondsOf_nonneg (count : Nat) : 0 ≤ secondsOf count := binary64.nearest_nonneg _

/-- The seconds that are read, in microseconds, are the count and its excess:
`secondsOf count * 1000000 = count + excess count`. -/
theorem secondsOf_mul (count : Nat) : secondsOf count * 1000000 = count + excess count := by
  rw [excess]
  ring

/-- The excess is at most half a unit of the seconds:
`|excess count| ≤ 1000000 * 2 ^ ((k : Int) - 54)`. -/
theorem abs_excess_le {count k : Nat} (h : count ≤ 2 ^ k * 1000000) :
    |excess count| ≤ 1000000 * 2 ^ ((k : Int) - 54) := by
  have hcast : (count : Rat) ≤ 2 ^ k * 1000000 := by
    exact_mod_cast h
  have hle : (count : Rat) / 1000000 ≤ 2 ^ (k : Int) := by
    rw [zpow_natCast, div_le_iff₀ (by norm_num)]
    exact hcast
  have herror := binary64.abs_nearest_sub_le (k := k) (by positivity) hle
    (by rw [minExponent_binary64, fractionBits_binary64]; omega)
  rw [fractionBits_binary64, show (k : Int) - (52 : Nat) - 2 = k - 54 by omega] at herror
  have hscaled : excess count = 1000000 * (secondsOf count - count / 1000000) := by
    rw [excess]
    ring
  rw [hscaled, abs_mul, abs_of_pos (by norm_num)]
  gcongr
  exact herror

/-- Up to `2 ^ 32` seconds the excess is below a quarter of a microsecond:
`|excess count| < 1 / 4`. -/
theorem abs_excess_lt_quarter {count : Nat} (h : count ≤ 2 ^ 32 * 1000000) :
    |excess count| < 1 / 4 :=
  (abs_excess_le h).trans_lt (by norm_num)

/-- Up to `2 ^ 33` seconds it is below half a microsecond: `|excess count| < 1 / 2`. -/
theorem abs_excess_lt_half {count : Nat} (h : count ≤ 2 ^ 33 * 1000000) : |excess count| < 1 / 2 :=
  (abs_excess_le h).trans_lt (by norm_num)

/-- Up to `2 ^ 34` seconds it is below a microsecond: `|excess count| < 1`. -/
theorem abs_excess_lt_one {count : Nat} (h : count ≤ 2 ^ 34 * 1000000) : |excess count| < 1 :=
  (abs_excess_le h).trans_lt (by norm_num)

/-- A count of up to 64 bits is read as a finite number. -/
theorem nearestRank_secondsOf_lt {count : Nat} (h : count ≤ 2 ^ 64) :
    binary64.nearestRank (count / 1000000) < binary64.infinityRank := by
  have hcast : (count : Rat) ≤ 2 ^ 64 := by
    exact_mod_cast h
  have hle : (count : Rat) / 1000000 ≤ 2 ^ (64 : Int) := by
    rw [div_le_iff₀ (by norm_num), zpow_ofNat]
    linarith
  exact binary64.nearestRank_lt_infinityRank (by positivity) hle (by decide) (by decide)

/-! ## Numbers near a count -/

/-- Few enough parts of one, divided by a small power of two, are exact:
`binary64.nearest (n / 2 ^ k) = n / 2 ^ k`. -/
theorem nearest_natCast_div {n k : Nat} (hn : n ≤ 2 ^ 53) (hk : k ≤ 2) :
    binary64.nearest (n / 2 ^ k) = n / 2 ^ k := by
  have hexact := binary64.nearest_natCast_mul hn
    (show binary64.minExponent ≤ -(k : Int) by rw [minExponent_binary64]; omega)
  rwa [zpow_neg, zpow_natCast, ← div_eq_mul_inv] at hexact

/-- Small enough natural numbers are exact: `binary64.nearest n = n`. -/
theorem nearest_natCast {n : Nat} (hn : n ≤ 2 ^ 53) : binary64.nearest n = n := by
  have hexact := nearest_natCast_div hn (zero_le_two : 0 ≤ 2)
  rwa [pow_zero, div_one] at hexact

/-- Halves from `2 ^ 51` to `2 ^ 52`. -/
theorem nearest_eq_half {q : Rat} {n : Nat} (hlow : 2 ^ 51 ≤ q) (hhigh : q ≤ 2 ^ 52)
    (h : |q - n / 2| ≤ 1 / 4) (heven : |q - n / 2| = 1 / 4 → n % 2 = 0) :
    binary64.nearest q = n / 2 := by
  have hunit : (2 : Rat) ^ (-1 : Int) = 1 / 2 := by norm_num
  have hnear := binary64.nearest_eq_of_abs_le (q := q) (-1) n (by decide)
  have hquarter : (1 / 2 / 2 : Rat) = 1 / 4 := by norm_num
  rw [hunit, binade_binary64, Int.cast_natCast, mul_one_div, mul_one_div, mul_one_div,
    hquarter] at hnear
  refine hnear ?_ ?_ h fun htie => ?_
  · push_cast
    linarith
  · push_cast
    linarith
  · have := heven htie
    omega

/-- From `2 ^ 52` to `2 ^ 53` the nearest number is the nearest whole one. -/
theorem nearest_eq_roundHalfEven {q : Rat} (hlow : 2 ^ 52 ≤ q) (hhigh : q ≤ 2 ^ 53) :
    binary64.nearest q = roundHalfEven q := by
  have hnear := binary64.nearest_eq_mul (q := q) 0 (by decide)
  rw [zpow_zero, binade_binary64, mul_one, mul_one, mul_one, div_one] at hnear
  refine hnear ?_ ?_
  · push_cast
    exact hlow
  · push_cast
    linarith

/-- Whole numbers from `2 ^ 52` to `2 ^ 53`. -/
theorem nearest_eq_whole {q : Rat} {n : Nat} (hlow : 2 ^ 52 ≤ q) (hhigh : q ≤ 2 ^ 53)
    (h : |q - n| ≤ 1 / 2) (heven : |q - n| = 1 / 2 → n % 2 = 0) :
    binary64.nearest q = n := by
  have hround : roundHalfEven q = (n : Int) := by
    refine roundHalfEven_eq h fun htie => ?_
    have := heven htie
    omega
  rw [nearest_eq_roundHalfEven hlow hhigh, hround, Int.cast_natCast]

/-- A sum between a count and the next one is cut off to the count: `count ≤ halfUp q` and
`halfUp q < count + 1` give `microsecondsOf q = count`. -/
theorem microsecondsOf_eq {q : Rat} {count : Nat} (hmax : count ≤ maxMicroseconds)
    (hlow : count ≤ halfUp q) (hhigh : halfUp q < count + 1) : microsecondsOf q = count := by
  have hfloor : ⌊halfUp q⌋ = (count : Int) :=
    Int.floor_eq_iff.mpr ⟨by exact_mod_cast hlow, by exact_mod_cast hhigh⟩
  show min maxMicroseconds ⌊halfUp q⌋.toNat = count
  rw [hfloor, Int.toNat_natCast]
  omega

/-- A product that is at most a half too small is made up for: `count ≤ halfUp q`. -/
theorem le_halfUp {q : Rat} {count : Nat} (hcount : count ≤ 2 ^ 52)
    (h : count - 1 / 2 ≤ q * 1000000) : count ≤ halfUp q := by
  match count with
  | 0 => simpa using halfUp_nonneg q
  | n + 1 =>
    -- half below the count is a number itself, so the product is no less
    have hbelow : ((n + 1 : Nat) : Rat) - 1 / 2 = ((2 * n + 1 : Nat) : Rat) / 2 ^ 1 := by
      push_cast
      ring
    rw [hbelow] at h
    have hproduct := binary64.nearest_mono (by positivity) h
    rw [nearest_natCast_div (by omega) (by decide), ← hbelow] at hproduct
    rw [← nearest_natCast (show n + 1 ≤ 2 ^ 53 by omega)]
    exact binary64.nearest_mono (by positivity) (by linarith)

/-! ## Counts below `2 ^ 51` -/

/-- A product that is at most a quarter too large is made up for where quarters are told apart:
`halfUp q < count + 1`. -/
theorem halfUp_lt {q : Rat} {count : Nat} (hcount : count < 2 ^ 51)
    (h : q * 1000000 ≤ count + 1 / 4) (hq : 0 ≤ q) : halfUp q < count + 1 := by
  have hquarter : (count + 1 / 4 : Rat) = ((4 * count + 1 : Nat) : Rat) / 2 ^ 2 := by
    push_cast
    ring
  have hthree : (count + 1 / 4 + 1 / 2 : Rat) = ((4 * count + 3 : Nat) : Rat) / 2 ^ 2 := by
    push_cast
    ring
  have hproduct := binary64.nearest_mono (by positivity) h
  rw [hquarter, nearest_natCast_div (by omega) le_rfl, ← hquarter] at hproduct
  have hsum := halfUp_le hproduct
  rw [hthree, nearest_natCast_div (by omega) le_rfl, ← hthree] at hsum
  linarith

/-- **Quarters.** A number of seconds that is at most a quarter of a microsecond from a count below
`2 ^ 51` gives that count. -/
theorem microsecondsOf_of_abs_le {q : Rat} {count : Nat} (hq : 0 ≤ q) (hcount : count < 2 ^ 51)
    (h : |q * 1000000 - count| ≤ 1 / 4) : microsecondsOf q = count := by
  obtain ⟨hlow, hhigh⟩ := abs_le.mp h
  exact microsecondsOf_eq (by unfold maxMicroseconds; omega) (le_halfUp (by omega) (by linarith))
    (halfUp_lt hcount (by linarith) hq)

/-- The excess of a count below `2 ^ 51` is less than that, so the count comes back. -/
theorem microsecondsOf_secondsOf_eq {count : Nat} (h : count < 2 ^ 51) :
    microsecondsOf (secondsOf count) = count :=
  microsecondsOf_of_abs_le (secondsOf_nonneg count) h (abs_excess_lt_quarter (by omega)).le

/-! ## Counts from `2 ^ 51` to `2 ^ 52` -/

/-- **Halves.** Where halves are told apart, a product that is more than a quarter too large is
rounded to the next half, and the sum to the next count: `microsecondsOf q = count + 1`. -/
theorem microsecondsOf_of_quarter_lt {q : Rat} {count : Nat} (hlow : 2 ^ 51 ≤ count)
    (hhigh : count < 2 ^ 52) (hexcess : 1 / 4 < q * 1000000 - count)
    (hhalf : q * 1000000 - count < 1 / 2) : microsecondsOf q = count + 1 := by
  have hcast : (2 ^ 51 : Rat) ≤ count := by
    exact_mod_cast hlow
  have hcast' : (count + 1 : Rat) ≤ 2 ^ 52 := by
    exact_mod_cast hhigh
  have hproduct : binary64.nearest (q * 1000000) = ((2 * count + 1 : Nat) : Rat) / 2 := by
    have hstrict : |q * 1000000 - ((2 * count + 1 : Nat) : Rat) / 2| < 1 / 4 := by
      push_cast
      rw [abs_lt]
      constructor <;> linarith
    exact nearest_eq_half (by linarith) (by linarith) hstrict.le fun htie => absurd htie hstrict.ne
  have hsum : halfUp q = ((count + 1 : Nat) : Rat) := by
    rw [halfUp, hproduct, ← nearest_natCast (show count + 1 ≤ 2 ^ 53 by omega)]
    congr 1
    push_cast
    ring
  exact microsecondsOf_eq (by unfold maxMicroseconds; omega) hsum.ge (by rw [hsum]; linarith)

/-- A product that is at most a quarter too large is rounded to the count:
`microsecondsOf q = count`. -/
theorem microsecondsOf_of_le_quarter {q : Rat} {count : Nat} (hlow : 2 ^ 51 ≤ count)
    (hhigh : count < 2 ^ 52) (hbelow : -1 / 2 ≤ q * 1000000 - count)
    (hexcess : q * 1000000 - count ≤ 1 / 4) : microsecondsOf q = count := by
  have hcast : (2 ^ 51 : Rat) ≤ count := by
    exact_mod_cast hlow
  have hcast' : (count + 1 : Rat) ≤ 2 ^ 52 := by
    exact_mod_cast hhigh
  have hquarter : binary64.nearest (count + 1 / 4 : Rat) = ((2 * count : Nat) : Rat) / 2 := by
    refine nearest_eq_half (by linarith) (by linarith) ?_ fun _ => by omega
    push_cast
    rw [abs_le]
    constructor <;> linarith
  have hproduct := binary64.nearest_mono (by linarith : 0 ≤ q * 1000000)
    (by linarith : q * 1000000 ≤ count + 1 / 4)
  have hhalf : ((2 * count : Nat) : Rat) / 2 + 1 / 2 = ((2 * count + 1 : Nat) : Rat) / 2 ^ 1 := by
    push_cast
    ring
  have hsum := halfUp_le (hproduct.trans_eq hquarter)
  rw [hhalf, nearest_natCast_div (by omega) (by decide)] at hsum
  push_cast at hsum
  exact microsecondsOf_eq (by unfold maxMicroseconds; omega) (le_halfUp (by omega) (by linarith))
    (by linarith)

/-! ## Counts from `2 ^ 52` to `2 ^ 53` -/

/-- An even count is the nearest one to what is a half more or less:
`binary64.nearest q = count`. -/
theorem nearest_eq_even {q : Rat} {count : Nat} (hlow : 2 ^ 52 ≤ q) (hhigh : q ≤ 2 ^ 53)
    (heven : count % 2 = 0) (h : |q - count| ≤ 1 / 2) : binary64.nearest q = count :=
  nearest_eq_whole hlow hhigh h fun _ => heven

/-- **Wholes.** Where only whole numbers are told apart, a product that is more than a half too
large for an even count is rounded to the odd one after it, and the sum to the next even one:
`microsecondsOf q = count + 2`. -/
theorem microsecondsOf_of_half_lt {q : Rat} {count : Nat} (hlow : 2 ^ 52 ≤ count)
    (hhigh : count < 2 ^ 53) (heven : count % 2 = 0) (hexcess : 1 / 2 < q * 1000000 - count)
    (hone : q * 1000000 - count < 1) : microsecondsOf q = count + 2 := by
  have hcast : (2 ^ 52 : Rat) ≤ count := by
    exact_mod_cast hlow
  have hcast' : (count + 2 : Rat) ≤ 2 ^ 53 := by
    exact_mod_cast (by omega : count + 2 ≤ 2 ^ 53)
  have hproduct : binary64.nearest (q * 1000000) = ((count + 1 : Nat) : Rat) := by
    have hstrict : |q * 1000000 - ((count + 1 : Nat) : Rat)| < 1 / 2 := by
      push_cast
      rw [abs_lt]
      constructor <;> linarith
    exact nearest_eq_whole (by linarith) (by linarith) hstrict.le fun htie => absurd htie hstrict.ne
  have hsum : halfUp q = ((count + 2 : Nat) : Rat) := by
    rw [halfUp, hproduct]
    push_cast
    refine (nearest_eq_even (by linarith) (by linarith)
      (show (count + 2) % 2 = 0 by omega) ?_).trans ?_
    · push_cast
      rw [abs_le]
      constructor <;> linarith
    · push_cast
      rfl
  exact microsecondsOf_eq (by unfold maxMicroseconds; omega) hsum.ge (by rw [hsum]; linarith)

/-- A product that is less than one too small is made up for by rounding the sum to an even count:
`count ≤ halfUp q`. -/
theorem le_halfUp_of_even {q : Rat} {count : Nat} (hlow : 2 ^ 52 < count) (hhigh : count < 2 ^ 53)
    (heven : count % 2 = 0) (h : count - 1 ≤ q * 1000000) : count ≤ halfUp q := by
  have hcast : (2 ^ 52 + 2 : Rat) ≤ count := by
    exact_mod_cast (by omega : 2 ^ 52 + 2 ≤ count)
  have hcast' : (count : Rat) ≤ 2 ^ 53 := by
    exact_mod_cast hhigh.le
  have hone := nearest_natCast (show count - 1 ≤ 2 ^ 53 by omega)
  rw [Nat.cast_sub (by omega), Nat.cast_one] at hone
  have hproduct : (count - 1 : Rat) ≤ binary64.nearest (q * 1000000) := by
    rw [← hone]
    exact binary64.nearest_mono (by linarith) h
  calc (count : Rat) = binary64.nearest (count - 1 / 2 : Rat) :=
        (nearest_eq_even (by linarith) (by linarith) heven
          (by rw [abs_le]; constructor <;> linarith)).symm
    _ ≤ halfUp q := binary64.nearest_mono (by linarith) (by linarith)

/-- A product that is at most a half too large for an even count is rounded to it:
`microsecondsOf q = count`. -/
theorem microsecondsOf_of_le_half {q : Rat} {count : Nat} (hlow : 2 ^ 52 ≤ count)
    (hhigh : count < 2 ^ 53) (heven : count % 2 = 0) (hle : count ≤ halfUp q) (hq : 0 ≤ q)
    (hexcess : q * 1000000 - count ≤ 1 / 2) : microsecondsOf q = count := by
  have hcast : (2 ^ 52 : Rat) ≤ count := by
    exact_mod_cast hlow
  have hcast' : (count + 2 : Rat) ≤ 2 ^ 53 := by
    exact_mod_cast (by omega : count + 2 ≤ 2 ^ 53)
  have hhalf : binary64.nearest (count + 1 / 2 : Rat) = count :=
    nearest_eq_even (by linarith) (by linarith) heven (by rw [abs_le]; constructor <;> linarith)
  have hproduct := binary64.nearest_mono (by positivity)
    (by linarith : q * 1000000 ≤ count + 1 / 2)
  have hsum := halfUp_le (hproduct.trans_eq hhalf)
  rw [hhalf] at hsum
  exact microsecondsOf_eq (by unfold maxMicroseconds; omega) hle (by linarith)

/-! ## Counts that were read -/

/-- A count below the most that there are is the integer part of the sum. -/
theorem halfUp_bounds {q : Rat} (hmax : microsecondsOf q < maxMicroseconds) :
    (microsecondsOf q : Rat) ≤ halfUp q ∧ halfUp q < microsecondsOf q + 1 := by
  -- the smaller of the two is not the limit
  have hfloor : (⌊halfUp q⌋ : Int) = (microsecondsOf q : Int) := by
    have hnonneg : 0 ≤ ⌊halfUp q⌋ := Int.floor_nonneg.mpr (halfUp_nonneg q)
    have hdef : microsecondsOf q = min maxMicroseconds ⌊halfUp q⌋.toNat := rfl
    omega
  have hbounds := Int.floor_eq_iff.mp hfloor
  exact_mod_cast hbounds

/-- A half more than a large power of two is rounded to it. -/
theorem nearest_two_pow_add_half :
    binary64.nearest (2 ^ 52 + 1 / 2) = 2 ^ 52 ∧ binary64.nearest (2 ^ 53 + 1 / 2) = 2 ^ 53 := by
  constructor <;> decide +kernel

/-- A sum below `2 ^ 53` is that of a product below it. -/
theorem product_lt_of_halfUp_lt {q : Rat} (h : halfUp q < 2 ^ 53) :
    binary64.nearest (q * 1000000) < 2 ^ 53 := by
  have hexact : binary64.nearest (2 ^ 53) = 2 ^ 53 := by
    exact_mod_cast nearest_natCast (n := 2 ^ 53) le_rfl
  by_contra hge
  have hsum : binary64.nearest (2 ^ 53) ≤ halfUp q :=
    binary64.nearest_mono (by norm_num) (by linarith)
  rw [hexact] at hsum
  exact hsum.not_gt h

/-- A product from `2 ^ 52` to `2 ^ 53` is a whole number, so that the sum is a tie and goes to an
even one. -/
theorem exists_halfUp_eq {q : Rat} (hlow : 2 ^ 52 ≤ binary64.nearest (q * 1000000))
    (hhigh : binary64.nearest (q * 1000000) < 2 ^ 53) :
    ∃ k : Int, halfUp q = k ∧ k % 2 = 0 := by
  -- rounding the product once more changes nothing, and gives an integer
  obtain ⟨k, hk⟩ : ∃ k : Int, binary64.nearest (q * 1000000) = k := by
    refine ⟨roundHalfEven (binary64.nearest (q * 1000000)), ?_⟩
    rw [← nearest_eq_roundHalfEven hlow hhigh.le, nearest, nearest_magnitude]
  rw [hk] at hlow hhigh
  have hnext : (k + 1 : Rat) ≤ 2 ^ 53 := by
    exact_mod_cast hhigh
  refine ⟨roundHalfEven (k + 1 / 2), ?_, roundHalfEven_add_half_emod k⟩
  rw [halfUp, hk, nearest_eq_roundHalfEven (by linarith) (by linarith)]

/-- **Counts from `2 ^ 52` to `2 ^ 53`** were rounded to even ones when they were read. -/
theorem even_microsecondsOf {q : Rat} (hlow : 2 ^ 52 ≤ microsecondsOf q)
    (hhigh : microsecondsOf q < 2 ^ 53) : microsecondsOf q % 2 = 0 := by
  obtain ⟨hle, hlt⟩ := halfUp_bounds (by unfold maxMicroseconds; omega : microsecondsOf q < _)
  have hlow' : (2 ^ 52 : Rat) ≤ microsecondsOf q := by
    exact_mod_cast hlow
  have hhigh' : (microsecondsOf q + 1 : Rat) ≤ 2 ^ 53 := by
    exact_mod_cast hhigh
  rcases lt_or_ge (binary64.nearest (q * 1000000)) (2 ^ 52) with hsmall | hlarge
  · -- the sum is `2 ^ 52`
    have hsum := halfUp_le hsmall.le
    rw [nearest_two_pow_add_half.1] at hsum
    have heq : microsecondsOf q = 2 ^ 52 := by
      exact_mod_cast le_antisymm (hle.trans hsum) hlow'
    rw [heq]
    rfl
  · obtain ⟨k, hk, heven⟩ := exists_halfUp_eq hlarge (product_lt_of_halfUp_lt (by linarith))
    rw [hk] at hle hlt
    norm_cast at hle hlt
    omega

/-- From `2 ^ 53` on every magnitude is a full binade of digits, times two or more. -/
theorem exists_digits {rank : Nat} (h : 2 ^ 53 ≤ binary64.magnitude rank) :
    ∃ digits unit : Nat, binary64.magnitude rank = digits * 2 ^ ((unit + 1 : Nat) : Int) ∧
      2 ^ 52 ≤ digits ∧ digits < 2 ^ 53 := by
  obtain ⟨level, digits, hrank, hlt, hfull⟩ := binary64.exists_level rank
  have hmag := binary64.magnitude_level hlt.le hfull
  rw [← hrank, minExponent_binary64] at hmag
  rw [binade_binary64] at hlt hfull
  have hdigits : (digits : Rat) < 2 ^ (53 : Int) := by
    exact_mod_cast hlt
  have hpow : (2 : Rat) ^ (53 : Int) < 2 ^ (53 + (-1074 + level : Int)) :=
    calc (2 : Rat) ^ (53 : Int) ≤ digits * 2 ^ (-1074 + level : Int) := by
          rw [← hmag]
          exact_mod_cast h
      _ < 2 ^ (53 : Int) * 2 ^ (-1074 + level : Int) := by gcongr
      _ = 2 ^ (53 + (-1074 + level : Int)) := (zpow_add₀ two_ne_zero _ _).symm
  have hunit := (zpow_lt_zpow_iff_right₀ one_lt_two).mp hpow
  refine ⟨digits, level - 1075, ?_, hfull.resolve_left (by omega), hlt⟩
  rw [hmag]
  congr 2
  omega

/-- A half more than a magnitude from `2 ^ 53` on is rounded to it. -/
theorem nearest_add_half {rank : Nat} (h : 2 ^ 53 ≤ binary64.magnitude rank) :
    binary64.nearest (binary64.magnitude rank + 1 / 2) = binary64.magnitude rank := by
  obtain ⟨digits, unit, hmag, hlow, hhigh⟩ := exists_digits h
  have htwo : (2 : Rat) ≤ 2 ^ ((unit + 1 : Nat) : Int) := by
    rw [zpow_natCast, pow_succ]
    have : (1 : Rat) ≤ 2 ^ unit := one_le_pow₀ one_le_two
    linarith
  have hlow' : (2 ^ 52 : Rat) ≤ digits := by
    exact_mod_cast hlow
  have hhigh' : (digits + 1 : Rat) ≤ 2 ^ 53 := by
    exact_mod_cast hhigh
  have hmulLow := mul_le_mul_of_nonneg_right hlow' (zero_le_two.trans htwo)
  have hmulHigh := mul_le_mul_of_nonneg_right hhigh' (zero_le_two.trans htwo)
  have hstrict : |binary64.magnitude rank + 1 / 2 - digits * 2 ^ ((unit + 1 : Nat) : Int)| <
      2 ^ ((unit + 1 : Nat) : Int) / 2 := by
    rw [hmag, add_sub_cancel_left, abs_of_pos (by norm_num)]
    linarith
  have hnear := binary64.nearest_eq_of_abs_le (q := binary64.magnitude rank + 1 / 2)
    (unit + 1 : Nat) digits (by rw [minExponent_binary64]; omega)
  rw [binade_binary64, Int.cast_natCast] at hnear
  rw [hnear ?_ ?_ hstrict.le fun htie => absurd htie hstrict.ne, hmag]
  · rw [hmag, Nat.cast_pow, Nat.cast_ofNat]
    linarith
  · rw [hmag, Nat.cast_pow, Nat.cast_ofNat]
    linarith

/-- **Counts past `2 ^ 53`** are the products themselves. -/
theorem nearest_mul_eq_microsecondsOf {q : Rat} (hlow : 2 ^ 53 < microsecondsOf q)
    (hmax : microsecondsOf q < maxMicroseconds) :
    binary64.nearest (q * 1000000) = microsecondsOf q := by
  obtain ⟨hle, hlt⟩ := halfUp_bounds hmax
  have hcount : (2 ^ 53 + 1 : Rat) ≤ microsecondsOf q := by
    exact_mod_cast hlow
  -- a product below `2 ^ 53` would give a sum of `2 ^ 53` at most
  have hlarge : 2 ^ 53 ≤ binary64.nearest (q * 1000000) := by
    by_contra hsmall
    have hsum := halfUp_le (not_le.mp hsmall).le
    rw [nearest_two_pow_add_half.2] at hsum
    linarith
  have hsum : halfUp q = binary64.nearest (q * 1000000) := nearest_add_half hlarge
  obtain ⟨digits, unit, hmag, -⟩ := exists_digits hlarge
  have hwhole : binary64.nearest (q * 1000000) = ((digits * 2 ^ (unit + 1) : Nat) : Rat) := by
    rw [nearest, hmag, zpow_natCast]
    push_cast
    rfl
  rw [hsum, hwhole] at hle hlt
  rw [hwhole]
  norm_cast at hle hlt ⊢
  omega

/-- The most microseconds and the powers of two below them come back. -/
theorem microsecondsOf_secondsOf_max :
    microsecondsOf (secondsOf maxMicroseconds) = maxMicroseconds ∧
      ∀ k : Fin 5, microsecondsOf (secondsOf (2 ^ 53 * 2 ^ k.val)) = 2 ^ 53 * 2 ^ k.val := by
  constructor <;> decide +kernel

/-- No 64-bit number of seconds is nearer to a count than the one that is read. -/
theorem abs_secondsOf_mul_sub_le {count : Nat} (h : 0 < count) (rank : Nat) :
    |secondsOf count * 1000000 - count| ≤ |binary64.magnitude rank * 1000000 - count| := by
  have hpos : (0 : Rat) < count := by
    exact_mod_cast h
  have hscale : ∀ x : Rat, |x * 1000000 - count| = |x - count / 1000000| * 1000000 := by
    intro x
    rw [← abs_of_pos (by norm_num : (0 : Rat) < 1000000), ← abs_mul,
      abs_of_pos (by norm_num : (0 : Rat) < 1000000), sub_mul, div_mul_cancel₀ _ (by norm_num)]
  rw [hscale, hscale]
  exact mul_le_mul_of_nonneg_right (binary64.abs_nearest_sub_le_abs (by positivity) rank)
    (by norm_num)

/-- Inside a binade the seconds that are read for a count are near enough if any are:
`microsecondsOf (secondsOf count) = count`. -/
theorem microsecondsOf_secondsOf_of_inside {rank count digits unit : Nat}
    (hmax : count ≤ maxMicroseconds) (hlarge : 2 ^ 53 ≤ count)
    (hproduct : binary64.nearest (binary64.magnitude rank * 1000000) = count)
    (hcount : (count : Rat) = digits * 2 ^ ((unit + 1 : Nat) : Int)) (hlow : 2 ^ 52 < digits)
    (hhigh : digits < 2 ^ 53) : microsecondsOf (secondsOf count) = count := by
  -- a count of so many digits has a binade of its own, above the smallest
  have hexponent : binary64.minExponent ≤ ((unit + 1 : Nat) : Int) := by
    rw [minExponent_binary64]
    omega
  have hbelow : binary64.binade < digits := by rwa [binade_binary64]
  have habove : digits < 2 * binary64.binade := by
    rw [binade_binary64]
    omega
  obtain ⟨hfirst, hfirstTie⟩ := binary64.abs_le_of_nearest_eq_inside
    (mul_nonneg (binary64.magnitude_nonneg rank) (by norm_num)) hexponent hbelow habove
    (hproduct.trans hcount)
  have hnearer := abs_secondsOf_mul_sub_le (by omega : 0 < count) rank
  rw [hcount] at hnearer
  -- half a unit away is near enough, and as near as that only an even number of units
  have hagain : binary64.nearest (secondsOf count * 1000000) = count := by
    rw [hcount]
    exact binary64.nearest_eq_of_inside hexponent hbelow habove (hnearer.trans hfirst)
      fun htie => hfirstTie (le_antisymm hfirst (htie ▸ hnearer))
  have hsum : halfUp (secondsOf count) = count := by
    rw [halfUp, hagain, ← hproduct]
    refine nearest_add_half ?_
    rw [← nearest, hproduct]
    exact_mod_cast hlarge
  exact microsecondsOf_eq hmax hsum.ge (by rw [hsum]; linarith)

/-- **Large counts** come back: the seconds that are read are at least as near to the count as those
that it was read from, and these were near enough. -/
theorem microsecondsOf_secondsOf_of_le {rank count : Nat}
    (hread : microsecondsOf (binary64.magnitude rank) = count) (h : 2 ^ 53 ≤ count) :
    microsecondsOf (secondsOf count) = count := by
  have hle : count ≤ maxMicroseconds := hread ▸ min_le_left _ _
  rcases hle.eq_or_lt with rfl | hmax
  · exact microsecondsOf_secondsOf_max.1
  rcases h.eq_or_lt with rfl | hlow
  · exact microsecondsOf_secondsOf_max.2 0
  have hproduct := nearest_mul_eq_microsecondsOf (hread ▸ hlow) (hread ▸ hmax)
  rw [hread] at hproduct
  have hlarge : (2 ^ 53 : Rat) ≤ binary64.nearest (binary64.magnitude rank * 1000000) := by
    rw [hproduct]
    exact_mod_cast hlow.le
  obtain ⟨digits, unit, hmag, hfull, hdigits⟩ := exists_digits hlarge
  have hcount : (count : Rat) = digits * 2 ^ ((unit + 1 : Nat) : Int) := hproduct.symm.trans hmag
  rcases hfull.eq_or_lt with rfl | hinside
  · -- at the lower end of a binade half a unit is too far: there are five powers of two to try
    have hcast : (count : Rat) = ((2 ^ 53 * 2 ^ unit : Nat) : Rat) := by
      rw [hcount, zpow_natCast, pow_succ]
      push_cast
      ring
    have hpow : count = 2 ^ 53 * 2 ^ unit := by
      exact_mod_cast hcast
    have hunit : unit < 5 := by
      by_contra hge
      have := Nat.pow_le_pow_right two_pos (not_lt.mp hge)
      unfold maxMicroseconds at hmax
      omega
    rw [hpow]
    exact microsecondsOf_secondsOf_max.2 ⟨unit, hunit⟩
  · exact microsecondsOf_secondsOf_of_inside hle h hproduct hcount hinside hdigits

/-! ## All counts -/

/-- Counts below `2 ^ 52` come back, or one more if the excess is more than a quarter. -/
theorem microsecondsOf_secondsOf_of_lt {count : Nat} (h : count < 2 ^ 52) :
    microsecondsOf (secondsOf count) = count + if 1 / 4 < excess count then 1 else 0 := by
  have hhalf := abs_lt.mp (abs_excess_lt_half (show count ≤ 2 ^ 33 * 1000000 by omega))
  split_ifs with hover
  · -- this much is too much only where halves are told apart
    have hlow : 2 ^ 32 * 1000000 < count := by
      by_contra hle
      exact hover.not_gt (abs_lt.mp (abs_excess_lt_quarter (not_lt.mp hle))).2
    exact microsecondsOf_of_quarter_lt (by omega) h hover hhalf.2
  · rw [add_zero]
    rcases lt_or_ge count (2 ^ 51) with hsmall | hlarge
    · exact microsecondsOf_secondsOf_eq hsmall
    · have hbelow : -1 / 2 ≤ excess count := by
        linarith
      exact microsecondsOf_of_le_quarter hlarge h hbelow (not_lt.mp hover)

/-- Even counts from `2 ^ 52` to `2 ^ 53` come back, or two more if the excess is more than a
half. -/
theorem microsecondsOf_secondsOf_of_even {count : Nat} (hlow : 2 ^ 52 ≤ count)
    (hhigh : count < 2 ^ 53) (heven : count % 2 = 0) :
    microsecondsOf (secondsOf count) = count + if 1 / 2 < excess count then 2 else 0 := by
  obtain ⟨hbelow, habove⟩ := abs_lt.mp (abs_excess_lt_one (show count ≤ 2 ^ 34 * 1000000 by omega))
  split_ifs with hover
  · exact microsecondsOf_of_half_lt hlow hhigh heven hover habove
  · have hle : count ≤ halfUp (secondsOf count) := by
      rcases hlow.eq_or_lt with rfl | hlt
      · -- below this count halves are told apart, but its excess is small
        have hhalf := (abs_lt.mp (abs_excess_lt_half (show 2 ^ 52 ≤ 2 ^ 33 * 1000000 by omega))).1
        refine le_halfUp le_rfl ?_
        rw [secondsOf_mul]
        linarith
      · refine le_halfUp_of_even hlt hhigh heven ?_
        rw [secondsOf_mul]
        linarith
    exact microsecondsOf_of_le_half hlow hhigh heven hle (secondsOf_nonneg count) (not_lt.mp hover)

/-- **Reading a count again.** Every count that was read from a number of seconds comes back with
its drift: `microsecondsOf (secondsOf count) = count + drift count`. -/
theorem microsecondsOf_secondsOf {rank count : Nat}
    (hread : microsecondsOf (binary64.magnitude rank) = count) :
    microsecondsOf (secondsOf count) = count + drift count := by
  unfold drift
  split
  case isTrue h => exact microsecondsOf_secondsOf_of_lt h
  case isFalse hlow =>
    split
    case isTrue hhigh =>
      have heven := even_microsecondsOf (hread ▸ not_lt.mp hlow) (hread ▸ hhigh)
      exact microsecondsOf_secondsOf_of_even (not_lt.mp hlow) hhigh (hread ▸ heven)
    case isFalse hhigh => exact microsecondsOf_secondsOf_of_le hread (not_lt.mp hhigh)

/-- **No drift** up to `2 ^ 32` seconds, from `2 ^ 52` microseconds to `2 ^ 33` seconds, and from
`2 ^ 53` microseconds on. -/
theorem drift_eq_zero {count : Nat}
    (h : count ≤ 2 ^ 32 * 1000000 ∨ 2 ^ 52 ≤ count ∧ count ≤ 2 ^ 33 * 1000000 ∨ 2 ^ 53 ≤ count) :
    drift count = 0 := by
  unfold drift
  split
  case isTrue hsmall =>
    exact if_neg (abs_lt.mp (abs_excess_lt_quarter (by omega))).2.not_gt
  case isFalse hlarge =>
    split
    case isTrue hend => exact if_neg (abs_lt.mp (abs_excess_lt_half (by omega))).2.not_gt
    case isFalse => rfl

example : drift 4300000000100001 = 1 ∧ drift 8600000000200002 = 2 := by
  decide +kernel

end Tachometer.Span
