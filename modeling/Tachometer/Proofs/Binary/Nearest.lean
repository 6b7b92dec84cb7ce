import Tachometer.Proofs.Binary.Order
import Tachometer.Proofs.Binary.Rounding

/-! # The nearest number of a format

Places and rationals are in the same order, and rounding takes the rational of a place back to it.
All that is needed of rounding follows: it is monotone, and it changes no number of the format.

* `Format.value` — the rational at a place, with `Format.value_lt_value`.
* `Format.place` — the place of the nearest number, with `Format.place_mono`.
* `Binary.le_iff_toRat` — finite numbers are in the order of their values.
* `Binary.round_mono`, `Binary.round_le`, `Binary.le_round` — rounded results keep the order.
* `Binary.round_toRat` — a finite number is nearest to its own value. -/

namespace Tachometer

namespace Format

variable (f : Format)

/-! ## The rational at a place -/

/-- The rational at a place. -/
def value (place : Int) : Rat :=
  if 0 ≤ place then f.magnitude place.natAbs else -f.magnitude place.natAbs

/-- The origin of the order has the value zero: `f.value 0 = 0`. -/
@[simp] theorem value_zero : f.value 0 = 0 := by
  simp [value]

/-- From the origin upwards places are ranks: `f.value rank = f.magnitude rank`. -/
theorem value_natCast (rank : Nat) : f.value rank = f.magnitude rank := by
  simp [value]

/-- Values are symmetric about the origin: `f.value (-place) = -f.value place`. -/
theorem value_neg (place : Int) : f.value (-place) = -f.value place := by
  unfold value
  rcases lt_trichotomy place 0 with h | rfl | h
  · rw [if_pos (by omega), if_neg (by omega), Int.natAbs_neg, neg_neg]
  · simp
  · rw [if_neg (by omega), if_pos h.le, Int.natAbs_neg]

/-- **Later places have larger rationals:** `a < b` gives `f.value a < f.value b`. -/
theorem value_lt_value {a b : Int} (hab : a < b) : f.value a < f.value b := by
  unfold value
  have ha := f.magnitude_nonneg a.natAbs
  have hb := f.magnitude_nonneg b.natAbs
  by_cases hneg : 0 ≤ a
  · -- neither place is negative
    rw [if_pos hneg, if_pos (hneg.trans hab.le), f.magnitude_lt_iff]
    omega
  · rw [if_neg hneg]
    by_cases hpos : 0 ≤ b
    · rw [if_pos hpos]
      have hlt : 0 < f.magnitude a.natAbs := f.magnitude_pos (by omega)
      linarith
    · rw [if_neg hpos, neg_lt_neg_iff, f.magnitude_lt_iff]
      omega

/-- Values are ordered by their places: `f.value a ≤ f.value b ↔ a ≤ b`. -/
theorem value_le_iff {a b : Int} : f.value a ≤ f.value b ↔ a ≤ b :=
  StrictMono.le_iff_le fun _ _ => f.value_lt_value

/-- Values are strictly ordered by their places: `f.value a < f.value b ↔ a < b`. -/
theorem value_lt_iff {a b : Int} : f.value a < f.value b ↔ a < b :=
  StrictMono.lt_iff_lt fun _ _ => f.value_lt_value

/-! ## The nearest place -/

/-- The place of the number nearest to a rational; from the last finite number on it is that of
an infinity. -/
def place (q : Rat) : Int :=
  if q = 0 then 0
  else if q < 0 then -(min (f.rankOf (-q)) f.infinityRank : Nat)
  else (min (f.rankOf q) f.infinityRank : Nat)

/-- Zero is at the origin of the order: `f.place 0 = 0`. -/
@[simp] theorem place_zero : f.place 0 = 0 := rfl

/-- The place of a positive number is its rank, or that of infinity if it is too large:
`f.place q = min (f.rankOf q) f.infinityRank`. -/
theorem place_of_pos {q : Rat} (hq : 0 < q) :
    f.place q = (min (f.rankOf q) f.infinityRank : Nat) := by
  rw [place, if_neg hq.ne', if_neg hq.not_gt]

/-- Places are symmetric about the origin: `f.place (-q) = -f.place q`. -/
theorem place_neg (q : Rat) : f.place (-q) = -f.place q := by
  unfold place
  rcases lt_trichotomy q 0 with h | rfl | h
  · rw [if_neg (by simpa using h.ne), if_neg (by simpa using h.le), if_neg h.ne, if_pos h, neg_neg]
  · simp
  · rw [if_neg (by simpa using h.ne'), if_pos (by simpa using h), if_neg h.ne', if_neg h.not_gt,
      neg_neg]

/-- What is not negative is not placed below zero: `0 ≤ f.place q`. -/
theorem place_nonneg {q : Rat} (hq : 0 ≤ q) : 0 ≤ f.place q := by
  rcases hq.eq_or_lt with rfl | hq
  · exact le_rfl
  · rw [f.place_of_pos hq]
    exact Int.natCast_nonneg _

/-- **Monotonicity.** Larger rationals have later places: `f.place q ≤ f.place r`. -/
theorem place_mono {q r : Rat} (h : q ≤ r) : f.place q ≤ f.place r := by
  have hpos : ∀ {a b : Rat}, 0 < a → a ≤ b → f.place a ≤ f.place b := by
    intro a b ha hab
    rw [f.place_of_pos ha, f.place_of_pos (ha.trans_le hab)]
    have hrank := f.rankOf_mono ha hab
    omega
  rcases lt_or_ge 0 q with hq | hq
  · exact hpos hq h
  · rcases lt_or_ge r 0 with hr | hr
    · -- both are negative: their opposites are positive and in the opposite order
      have hneg := hpos (neg_pos.mpr hr) (neg_le_neg h)
      rw [f.place_neg, f.place_neg] at hneg
      omega
    · have hneg := f.place_nonneg (neg_nonneg.mpr hq)
      rw [f.place_neg] at hneg
      -- zero lies between the two
      have := f.place_nonneg hr
      omega

/-- **Numbers of the format stay.** The rational at a finite place has that place:
`f.place (f.value a) = a`. -/
theorem place_value {a : Int} (h : a.natAbs < f.infinityRank) : f.place (f.value a) = a := by
  have hpos : ∀ {rank : Nat}, 0 < rank → rank < f.infinityRank →
      f.place (f.magnitude rank) = rank := by
    intro rank hrank hlt
    rw [f.place_of_pos (f.magnitude_pos hrank), f.rankOf_magnitude hrank, min_eq_left hlt.le]
  rcases lt_trichotomy a 0 with ha | rfl | ha
  · -- a negative place is opposite to a positive one
    have hplace := hpos (show 0 < a.natAbs by omega) h
    rw [value, if_neg (by omega), f.place_neg, hplace]
    omega
  · simp
  · have hplace := hpos (show 0 < a.natAbs by omega) h
    rw [value, if_pos ha.le, hplace]
    omega

end Format

namespace Binary

variable {f : Format} {x y : Binary f} {q r : Rat} {a : Int}

/-! ## Numbers and their values -/

/-- A finite number has the rational at its place for its value: `x.toRat = f.value a`. -/
theorem toRat_of_position (hx : x.isFinite = true) (h : x.position = some a) :
    x.toRat = f.value a := by
  match x, hx, h with
  | .finite false rank, _, h =>
    obtain rfl := Option.some.inj h
    exact (f.value_natCast rank).symm
  | .finite true rank, _, h =>
    obtain rfl := Option.some.inj h
    exact ((f.value_neg rank).trans (congrArg Neg.neg (f.value_natCast rank))).symm

/-- **Order of values.** Finite numbers are in the order of their values:
`x ≤ y ↔ x.toRat ≤ y.toRat`. -/
theorem le_iff_toRat (hx : x.isFinite = true) (hy : y.isFinite = true) :
    x ≤ y ↔ x.toRat ≤ y.toRat := by
  obtain ⟨a, ha⟩ := exists_position (ne_nan_of_isFinite hx)
  obtain ⟨b, hb⟩ := exists_position (ne_nan_of_isFinite hy)
  rw [le_iff_of_position ha hb, toRat_of_position hx ha, toRat_of_position hy hb, f.value_le_iff]

/-- Finite numbers are strictly ordered by their values: `x < y ↔ x.toRat < y.toRat`. -/
theorem lt_iff_toRat (hx : x.isFinite = true) (hy : y.isFinite = true) :
    x < y ↔ x.toRat < y.toRat := by
  obtain ⟨a, ha⟩ := exists_position (ne_nan_of_isFinite hx)
  obtain ⟨b, hb⟩ := exists_position (ne_nan_of_isFinite hy)
  rw [lt_iff_of_position ha hb, toRat_of_position hx ha, toRat_of_position hy hb, f.value_lt_iff]

/-- A finite number that is not below zero has a value that is not: `0 ≤ x.toRat`. -/
theorem toRat_nonneg (hx : x.isFinite = true) (h : 0 ≤ x) : 0 ≤ x.toRat := by
  simpa using (le_iff_toRat isFinite_zero hx).mp h

/-! ## Rounding -/

/-- A rank with a sign is at its own place, or at that of infinity:
`(ofRank s rank).position = some (signedRank s (min rank f.infinityRank))`. -/
theorem position_ofRank (s : Bool) (rank : Nat) :
    (ofRank s rank : Binary f).position = some (signedRank s (min rank f.infinityRank)) := by
  unfold ofRank
  split
  case isTrue h => rw [position_finite, min_eq_left h.le]
  case isFalse h => rw [position_infinity, min_eq_right (not_lt.mp h)]

/-- **The place of a rounded result.** `(round s q : Binary f).position = some (f.place q)`. -/
@[simp] theorem position_round (s : Bool) (q : Rat) :
    (round s q : Binary f).position = some (f.place q) := by
  unfold round Format.place
  split_ifs
  · exact position_signedZero s
  · exact position_ofRank true _
  · exact position_ofRank false _

/-- Rounding gives a number: `round s q ≠ nan`. -/
@[simp] theorem round_ne_nan (s : Bool) (q : Rat) : (round s q : Binary f) ≠ nan :=
  ne_nan_of_position (position_round s q)

/-- **Rounding is monotone,** whatever signs are given for zeros: `q ≤ r` gives
`(round s q : Binary f) ≤ round t r`. -/
theorem round_mono (h : q ≤ r) (s t : Bool) : (round s q : Binary f) ≤ round t r :=
  (le_iff_of_position (position_round s q) (position_round t r)).mpr (f.place_mono h)

/-- A finite number has the place of its value: `x.position = some (f.place x.toRat)`. -/
theorem position_eq_place (hx : x.isFinite = true) : x.position = some (f.place x.toRat) := by
  obtain ⟨a, ha⟩ := exists_position (ne_nan_of_isFinite hx)
  rw [ha, toRat_of_position hx ha, f.place_value ((isFinite_iff_of_position ha).mp hx)]

/-- A rounded result is at most what the exact result is at most: `round s q ≤ x`. -/
theorem round_le (hx : x.isFinite = true) (h : q ≤ x.toRat) (s : Bool) : round s q ≤ x :=
  (le_iff_of_position (position_round s q) (position_eq_place hx)).mpr (f.place_mono h)

/-- A rounded result is at least what the exact result is at least: `x ≤ round s q`. -/
theorem le_round (hx : x.isFinite = true) (h : x.toRat ≤ q) (s : Bool) : x ≤ round s q :=
  (le_iff_of_position (position_eq_place hx) (position_round s q)).mpr (f.place_mono h)

/-- What is not negative is not rounded below zero: `0 ≤ round s q`. -/
theorem round_nonneg (h : 0 ≤ q) (s : Bool) : 0 ≤ (round s q : Binary f) :=
  le_round isFinite_zero (by simpa using h) s

/-- What is not positive is not rounded above zero: `round s q ≤ 0`. -/
theorem round_nonpos (h : q ≤ 0) (s : Bool) : (round s q : Binary f) ≤ 0 :=
  round_le isFinite_zero (by simpa using h) s

/-- **Rounding changes no number of the format.** -/
theorem isFinite_round_toRat (hx : x.isFinite = true) (s : Bool) :
    (round s x.toRat : Binary f).isFinite = true ∧
      (round s x.toRat : Binary f).toRat = x.toRat := by
  obtain ⟨a, ha⟩ := exists_position (ne_nan_of_isFinite hx)
  have hround : (round s x.toRat : Binary f).position = some a := by
    rw [position_round, ← position_eq_place hx, ha]
  have hfinite : (round s x.toRat : Binary f).isFinite = true := by
    rw [isFinite_iff_of_position hround, ← isFinite_iff_of_position ha]
    exact hx
  exact ⟨hfinite, by rw [toRat_of_position hfinite hround, toRat_of_position hx ha]⟩

/-- A rounded result has the sign of the exact one, or the given one if that has none. -/
theorem negative_round (s : Bool) (q : Rat) :
    (round s q : Binary f).negative = if q = 0 then s else decide (q < 0) := by
  have hofRank : ∀ (t : Bool) (rank : Nat), (ofRank t rank : Binary f).negative = t := by
    intro t rank
    unfold ofRank
    split <;> rfl
  unfold round
  split_ifs with hzero hneg
  · rfl
  · rw [hofRank, decide_eq_true hneg]
  · rw [hofRank, decide_eq_false hneg]

/-- The value of a number that is not zero has the number's sign:
`(finite s rank : Binary f).toRat < 0 ↔ s = true`. -/
theorem toRat_neg_iff {s : Bool} {rank : Fin f.infinityRank}
    (h : (finite s rank : Binary f).toRat ≠ 0) :
    (finite s rank : Binary f).toRat < 0 ↔ s = true := by
  have hnonneg := f.magnitude_nonneg rank
  cases s with
  | false => simpa [toRat] using hnonneg
  | true => simpa [toRat] using lt_of_le_of_ne hnonneg (by simpa [toRat, eq_comm] using h)

/-- **A finite number is nearest to its own value**, and its sign is kept:
`round x.negative x.toRat = x`. -/
theorem round_toRat (hx : x.isFinite = true) : round x.negative x.toRat = x := by
  -- the place alone does not tell the zeros apart, the sign does
  refine eq_of_sameValue ?_ ?_
  · exact sameValue_iff.mpr ⟨_, position_round _ _, position_eq_place hx⟩
  · rw [negative_round]
    split_ifs with h
    · rfl
    · match x, hx with
      | .finite s rank, _ => cases s <;> simp [toRat_neg_iff h, negative]

end Binary

end Tachometer
