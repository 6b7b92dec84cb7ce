import Tachometer.Clock
import Tachometer.Proofs.Binary.Distance

/-! # Whole microseconds

A span of whole microseconds is told by these. A number of seconds gives them by a product and a
sum, each rounded, and a cut-off; none of this leaves the non-negative rationals.

* `Span.microseconds_ofSeconds`, `Span.ofSeconds_inj_iff` — spans from numbers of seconds.
* `Span.microsecondsOf` — the microseconds of a rational number of seconds.
* `Span.nearestMicroseconds_eq_microsecondsOf` — those of a finite number.
* `Span.Clamps`, `Span.clamps_nearestMicroseconds` — more seconds never have fewer microseconds, and
  these stay between none and the most that fit. -/

namespace Tachometer.Span

open Format

/-- A higher limit does not matter below the lower one:
`x.truncate limit = min (x.truncate limit') limit`. -/
theorem truncate_eq_min {f : Format} {limit limit' : Nat} (h : limit ≤ limit') (x : Binary f) :
    x.truncate limit = min (x.truncate limit') limit := by
  match x with
  | .nan => simp [Binary.truncate]
  | .infinity true => simp [Binary.truncate]
  | .infinity false => simp [Binary.truncate, h]
  | .finite s rank =>
    simp only [Binary.truncate]
    omega

/-- Microseconds that fit a span are counted in full:
`(ofMicroseconds (.ofNat count)).ticks.toNat = 100 * count`. -/
theorem toNat_ofMicroseconds {count : Nat} (h : count ≤ maxMicroseconds) :
    (ofMicroseconds (.ofNat count)).ticks.toNat = 100 * count := by
  unfold maxMicroseconds at h
  have hcount : (UInt64.ofNat count).toNat = count :=
    UInt64.toNat_ofNat_of_lt' (show count < 18446744073709551616 by omega)
  show (UInt64.ofNat count * ticksPerMicrosecond).toNat = 100 * count
  rw [UInt64.toNat_mul, hcount, show ticksPerMicrosecond.toNat = 100 by rfl]
  omega

/-- A number of seconds is a whole number of microseconds. -/
theorem toNat_ofSeconds (seconds : Binary64) :
    (ofSeconds seconds).ticks.toNat = 100 * nearestMicroseconds seconds :=
  toNat_ofMicroseconds (nearestMicroseconds_le seconds)

/-- Whole microseconds can be read off a span of them: `d.microseconds.toNat = count`. -/
theorem toNat_microseconds_of_ticks {d : Span} {count : Nat} (h : d.ticks.toNat = 100 * count) :
    d.microseconds.toNat = count := by
  rw [toNat_microseconds, h, Nat.mul_div_cancel_left _ (by decide)]

/-- The microseconds of a number of seconds are those that it was rounded to. -/
theorem microseconds_ofSeconds (seconds : Binary64) :
    (ofSeconds seconds).microseconds.toNat = nearestMicroseconds seconds :=
  toNat_microseconds_of_ticks (toNat_ofSeconds seconds)

/-- Spans of whole microseconds are told apart by these. -/
theorem ofSeconds_inj_iff {a b : Binary64} :
    ofSeconds a = ofSeconds b ↔ nearestMicroseconds a = nearestMicroseconds b := by
  constructor
  · intro h
    rw [← microseconds_ofSeconds, h, microseconds_ofSeconds]
  · intro h
    rw [ofSeconds, ofSeconds, h]

/-- The microseconds of a number of seconds, cut off first to 64 bits and then to what fits a
span. -/
theorem nearestMicroseconds_eq (seconds : Binary64) :
    nearestMicroseconds seconds =
      if seconds ≤ 0 then 0
      else min ((seconds * .ofNat 1000000 + .round false (1 / 2)).truncate (2 ^ 64 - 1))
        ((2 ^ 64 - 1) / 100) := by
  rw [nearestMicroseconds, truncate_eq_min (show maxMicroseconds ≤ 2 ^ 64 - 1 by decide)]
  rfl

/-- No seconds, or fewer, are no microseconds: `nearestMicroseconds seconds = 0`. -/
theorem nearestMicroseconds_of_nonpos {seconds : Binary64} (h : seconds ≤ 0) :
    nearestMicroseconds seconds = 0 := if_pos h

/-! ## In the rationals -/

/-- A number of seconds that is not negative, times a million and with a half added, both rounded as
if numbers had no end. -/
def halfUp (seconds : Rat) : Rat := binary64.nearest (binary64.nearest (seconds * 1000000) + 1 / 2)

/-- The microseconds of a number of seconds that is not negative. -/
def microsecondsOf (seconds : Rat) : Nat := min maxMicroseconds (halfUp seconds).floor.toNat

/-- The sum that is cut off is not negative: `0 ≤ halfUp q`. -/
theorem halfUp_nonneg (q : Rat) : 0 ≤ halfUp q := binary64.nearest_nonneg _

/-- The million of a number of seconds. -/
theorem million_eq :
    (.ofNat 1000000 : Binary64).isFinite = true ∧ (.ofNat 1000000 : Binary64).toRat = 1000000 :=
  Binary.toRat_ofNat_of_lt (by decide)

/-- The half that is added. -/
theorem half_eq :
    (.round false (1 / 2) : Binary64).isFinite = true ∧
      (.round false (1 / 2) : Binary64).toRat = 1 / 2 := by
  obtain ⟨x, hx, hval⟩ := Binary.exists_toRat_eq_two_zpow (f := binary64) (k := -1) (by decide)
    (by decide)
  rw [show (1 / 2 : Rat) = x.toRat by rw [hval]; norm_num]
  exact Binary.isFinite_round_toRat hx false

/-- The half that is added has no minus: `(.round false (1 / 2) : Binary64).negative = false`. -/
theorem negative_half : (.round false (1 / 2) : Binary64).negative = false := by
  rw [Binary.negative_round]
  norm_num

/-- No seconds are no microseconds: `microsecondsOf 0 = 0`. -/
@[simp] theorem microsecondsOf_zero : microsecondsOf 0 = 0 := by
  have hhalf : binary64.nearest (1 / 2) = 1 / 2 := by
    have hexact := binary64.nearest_natCast_mul (show 1 ≤ 2 * binary64.binade by decide)
      (show binary64.minExponent ≤ -1 by decide)
    norm_num at hexact ⊢
    exact hexact
  have hfloor : (1 / 2 : Rat).floor = 0 := by
    decide +kernel
  rw [microsecondsOf, halfUp, zero_mul, nearest_zero, zero_add, hhalf, hfloor]
  rfl

/-- **The microseconds of a number** without a minus are those of its value:
`nearestMicroseconds x = microsecondsOf x.toRat`. -/
theorem nearestMicroseconds_eq_microsecondsOf {x : Binary64} (hx : x.isFinite = true)
    (hsign : x.negative = false) : nearestMicroseconds x = microsecondsOf x.toRat := by
  have hnonneg := Binary.toRat_nonneg_of_negative hsign
  rw [nearestMicroseconds]
  split
  case isTrue h =>
    have hnonpos : x.toRat ≤ 0 := by
      simpa using (Binary.le_iff_toRat hx Binary.isFinite_zero).mp h
    rw [le_antisymm hnonpos hnonneg, microsecondsOf_zero]
  case isFalse =>
    obtain ⟨hmillion, hmillionval⟩ := million_eq
    obtain ⟨hhalf, hhalfval⟩ := half_eq
    rw [Binary.mul_eq_ofRank hx hmillion hsign (Binary.negative_ofNat _), hmillionval,
      Binary.ofRank_add _ hhalf negative_half, hhalfval, Binary.truncate_ofRank]
    · rfl
    · exact_mod_cast
        (by decide +kernel : maxMicroseconds ≤ 2 ^ 2 ^ (binary64.exponentBits - 1))

/-- The microseconds of a finite number are those of a magnitude; a negative number gives none, as
zero does. -/
theorem exists_nearestMicroseconds_eq {x : Binary64} (hx : x.isFinite = true) :
    ∃ rank, nearestMicroseconds x = microsecondsOf (binary64.magnitude rank) := by
  match x, hx with
  | .finite false rank, hx => exact ⟨rank, nearestMicroseconds_eq_microsecondsOf hx rfl⟩
  | .finite true rank, hx =>
    have hle : (.finite true rank : Binary64) ≤ 0 := by
      rw [Binary.le_iff_toRat hx Binary.isFinite_zero, Binary.toRat_zero]
      exact neg_nonpos.mpr (binary64.magnitude_nonneg rank)
    refine ⟨0, ?_⟩
    rw [nearestMicroseconds_of_nonpos hle, magnitude_zero, microsecondsOf_zero]

/-! ## In order -/

/-- A bound on the rounded product is one on the sum: `halfUp q ≤ binary64.nearest (r + 1 / 2)`. -/
theorem halfUp_le {q r : Rat} (h : binary64.nearest (q * 1000000) ≤ r) :
    halfUp q ≤ binary64.nearest (r + 1 / 2) := by
  have := binary64.nearest_nonneg (q * 1000000)
  exact binary64.nearest_mono (by linarith) (by linarith)

/-- More seconds have no smaller sum: `q ≤ r` gives `halfUp q ≤ halfUp r`. -/
theorem halfUp_mono {q r : Rat} (hq : 0 ≤ q) (h : q ≤ r) : halfUp q ≤ halfUp r :=
  halfUp_le (binary64.nearest_mono (by positivity) (by linarith))

/-- More seconds are no fewer microseconds: `q ≤ r` gives `microsecondsOf q ≤ microsecondsOf r`. -/
theorem microsecondsOf_mono {q r : Rat} (hq : 0 ≤ q) (h : q ≤ r) :
    microsecondsOf q ≤ microsecondsOf r := by
  have hfloor : ⌊halfUp q⌋ ≤ ⌊halfUp r⌋ := Int.floor_mono (halfUp_mono hq h)
  exact min_le_min_left _ (Int.toNat_le_toNat hfloor)

/-- A time with the most microseconds or more has the most. The format does not have the most, but
the number that it is rounded to is larger. -/
theorem microsecondsOf_of_max_le {q : Rat} (h : maxMicroseconds ≤ q * 1000000) :
    microsecondsOf q = maxMicroseconds := by
  have hmax : microsecondsOf (maxMicroseconds / 1000000) = maxMicroseconds := by
    decide +kernel
  have hle : (maxMicroseconds : Rat) / 1000000 ≤ q := (div_le_iff₀ (by norm_num)).mpr h
  refine le_antisymm (min_le_left _ _) ?_
  calc maxMicroseconds = microsecondsOf (maxMicroseconds / 1000000) := hmax.symm
    _ ≤ microsecondsOf q := microsecondsOf_mono (by positivity) hle

/-- **A longer time** has no fewer microseconds, also where the product with a million is infinite:
`nearestMicroseconds a ≤ nearestMicroseconds b`. -/
theorem nearestMicroseconds_mono {a b : Binary64} (ha : a.isFinite = true) (hb : b.isFinite = true)
    (h : a ≤ b) : nearestMicroseconds a ≤ nearestMicroseconds b := by
  by_cases hnonpos : a ≤ 0
  · rw [nearestMicroseconds_of_nonpos hnonpos]
    exact Nat.zero_le _
  · -- neither has a minus, and past the last finite number the exact values count just the same
    have hapos : 0 < a :=
      (Binary.not_le (Binary.ne_nan_of_isFinite ha) Binary.zero_ne_nan).mp hnonpos
    have hasign := Binary.negative_of_pos hapos
    have hbsign := Binary.negative_of_pos (Binary.lt_of_lt_of_le hapos h)
    rw [nearestMicroseconds_eq_microsecondsOf ha hasign,
      nearestMicroseconds_eq_microsecondsOf hb hbsign]
    exact microsecondsOf_mono (Binary.toRat_nonneg_of_negative hasign)
      ((Binary.le_iff_toRat ha hb).mp h)

/-- Seconds that have at least as many microseconds as fit a span have just these:
`nearestMicroseconds a = maxMicroseconds`. -/
theorem nearestMicroseconds_of_max_le {a : Binary64} (ha : a.isFinite = true)
    (h : maxMicroseconds ≤ a.toRat * 1000000) : nearestMicroseconds a = maxMicroseconds := by
  have hmax : (0 : Rat) < maxMicroseconds := by
    norm_num [maxMicroseconds]
  have hpos : 0 < a := by
    rw [Binary.lt_iff_toRat Binary.isFinite_zero ha, Binary.toRat_zero]
    linarith
  rw [nearestMicroseconds_eq_microsecondsOf ha (Binary.negative_of_pos hpos),
    microsecondsOf_of_max_le h]

/-- A count of the microseconds in a number of seconds that is kept between none and a limit. -/
structure Clamps (count : Binary64 → Nat) (limit : Nat) : Prop where
  /-- A larger number has no fewer. -/
  mono : ∀ a b : Binary64, a.isFinite = true → b.isFinite = true → a ≤ b → count a ≤ count b
  /-- A number that is not positive has none. -/
  eq_zero : ∀ a : Binary64, a ≤ 0 → count a = 0
  /-- No number has more than the limit. -/
  le_limit : ∀ a : Binary64, count a ≤ limit
  /-- A number with that many has the limit. -/
  eq_limit : ∀ a : Binary64, a.isFinite = true → limit ≤ a.toRat * 1000000 → count a = limit

/-- **Kept in range.** The limit is as many microseconds as fit 64 bits of ticks. -/
theorem clamps_nearestMicroseconds : Clamps nearestMicroseconds ((2 ^ 64 - 1) / 100) where
  mono _ _ := nearestMicroseconds_mono
  eq_zero _ := nearestMicroseconds_of_nonpos
  le_limit := nearestMicroseconds_le
  eq_limit _ := nearestMicroseconds_of_max_le

end Tachometer.Span
