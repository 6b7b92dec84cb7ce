import Mathlib.Data.Int.Order.Basic
import Mathlib.Order.Nat
import Tachometer.Binary.Arithmetic

/-! # The numerical order

Numbers are compared by their places, so the order is that of the integers except for what is not
a number, which is related to nothing.

* `Binary.le_iff`, `Binary.lt_iff`, `Binary.sameValue_iff` — comparisons as statements on places.
* `Binary.not_le`, `Binary.not_lt` — the order is total away from what is not a number.
* `Binary.eq_of_position`, `Binary.eq_of_sameValue` — a place other than `0` has one number, and a
  place and a sign have one.
* `Binary.isFinite_of_between` — what lies between finite numbers is finite.
* `Binary.larger` — the larger of two numbers. -/

namespace Tachometer.Binary

variable {f : Format} {x y z : Binary f} {a b : Int}

/-! ## Places -/

/-- Two numbers are related exactly if both have places, and these are:
`∃ a b, x.position = some a ∧ y.position = some b ∧ rel a b = true`. -/
theorem related_iff (rel : Int → Int → Bool) (x y : Binary f) :
    related rel x y = true ↔
      ∃ a b, x.position = some a ∧ y.position = some b ∧ rel a b = true := by
  unfold related
  cases x.position <;> cases y.position <;> simp

/-- The order compares places, which both numbers must have. -/
theorem le_iff : x ≤ y ↔ ∃ a b, x.position = some a ∧ y.position = some b ∧ a ≤ b := by
  refine (related_iff (fun a b => a ≤ b) x y).trans ?_
  simp only [decide_eq_true_eq]

/-- The strict order compares places, which both numbers must have. -/
theorem lt_iff : x < y ↔ ∃ a b, x.position = some a ∧ y.position = some b ∧ a < b := by
  refine (related_iff (fun a b => a < b) x y).trans ?_
  simp only [decide_eq_true_eq]

/-- Numbers of the same value have the same place. -/
theorem sameValue_iff : x.sameValue y = true ↔ ∃ a, x.position = some a ∧ y.position = some a := by
  rw [sameValue, related_iff]
  constructor
  · rintro ⟨a, b, hx, hy, h⟩
    exact ⟨a, hx, by rw [hy, eq_of_beq h]⟩
  · rintro ⟨a, hx, hy⟩
    exact ⟨a, a, hx, hy, beq_self_eq_true a⟩

/-- Numbers with places are ordered by them: `x ≤ y ↔ a ≤ b`. -/
theorem le_iff_of_position (hx : x.position = some a) (hy : y.position = some b) :
    x ≤ y ↔ a ≤ b := by
  simp [le_iff, hx, hy]

/-- Numbers with places are strictly ordered by them: `x < y ↔ a < b`. -/
theorem lt_iff_of_position (hx : x.position = some a) (hy : y.position = some b) :
    x < y ↔ a < b := by
  simp [lt_iff, hx, hy]

/-- Only what is not a number has no place: `x.position = none ↔ x = nan`. -/
theorem position_eq_none_iff : x.position = none ↔ x = nan := by
  cases x <;> simp [position]

/-- Every number other than what is not a number has a place: `∃ a, x.position = some a`. -/
theorem exists_position (h : x ≠ nan) : ∃ a, x.position = some a :=
  Option.ne_none_iff_exists'.mp fun hn => h (position_eq_none_iff.mp hn)

/-- What has a place is a number: `x ≠ nan`. -/
theorem ne_nan_of_position (h : x.position = some a) : x ≠ nan := by
  rintro rfl
  exact absurd h (by simp)

/-- The infinities are next to the finite numbers:
`(infinity s).position = some (signedRank s f.infinityRank)`. -/
@[simp] theorem position_infinity (s : Bool) :
    (infinity s : Binary f).position = some (signedRank s f.infinityRank) := rfl

/-- A finite number is at its rank: `(finite s rank).position = some (signedRank s rank)`. -/
@[simp] theorem position_finite (s : Bool) (rank : Fin f.infinityRank) :
    (finite s rank).position = some (signedRank s rank) := rfl

/-- Both zeros are at the origin: `(signedZero s).position = some 0`. -/
@[simp] theorem position_signedZero (s : Bool) : (signedZero s : Binary f).position = some 0 := by
  cases s <;> rfl

/-- Without its sign a rank is the rank: `(signedRank s rank).natAbs = rank`. -/
theorem natAbs_signedRank (s : Bool) (rank : Nat) : (signedRank s rank).natAbs = rank := by
  cases s <;> simp [signedRank]

/-- No place lies past the infinities: `a.natAbs ≤ f.infinityRank`. -/
theorem natAbs_position_le (h : x.position = some a) : a.natAbs ≤ f.infinityRank := by
  match x with
  | .nan => exact absurd h (by simp)
  | .infinity s =>
    obtain rfl := Option.some.inj h
    rw [natAbs_signedRank]
  | .finite s rank =>
    obtain rfl := Option.some.inj h
    rw [natAbs_signedRank]
    exact rank.isLt.le

/-- The finite numbers are those strictly between the infinities:
`x.isFinite = true ↔ a.natAbs < f.infinityRank`. -/
theorem isFinite_iff_of_position (h : x.position = some a) :
    x.isFinite = true ↔ a.natAbs < f.infinityRank := by
  match x with
  | .nan => exact absurd h (by simp)
  | .infinity s =>
    obtain rfl := Option.some.inj h
    simp [isFinite, natAbs_signedRank]
  | .finite s rank =>
    obtain rfl := Option.some.inj h
    simp [isFinite, natAbs_signedRank]

/-- What is finite is a number: `x ≠ nan`. -/
theorem ne_nan_of_isFinite (h : x.isFinite = true) : x ≠ nan := by
  rintro rfl
  exact absurd h (by simp [isFinite])

/-- Zero is a number: `(0 : Binary f) ≠ nan`. -/
@[simp] theorem zero_ne_nan : (0 : Binary f) ≠ nan := ne_nan_of_isFinite isFinite_zero

/-! ## The order -/

/-- Only numbers are compared: `x ≤ y` gives `x ≠ nan ∧ y ≠ nan`. -/
theorem ne_nan_of_le (h : x ≤ y) : x ≠ nan ∧ y ≠ nan := by
  obtain ⟨a, b, hx, hy, -⟩ := le_iff.mp h
  exact ⟨ne_nan_of_position hx, ne_nan_of_position hy⟩

/-- A number is no larger than itself: `x ≤ x`. -/
theorem le_refl_of_ne_nan (h : x ≠ nan) : x ≤ x := by
  obtain ⟨a, ha⟩ := exists_position h
  exact (le_iff_of_position ha ha).mpr le_rfl

/-- What is less is not larger: `x < y` gives `x ≤ y`. -/
theorem le_of_lt (h : x < y) : x ≤ y := by
  obtain ⟨a, b, hx, hy, hab⟩ := lt_iff.mp h
  exact le_iff.mpr ⟨a, b, hx, hy, hab.le⟩

/-- The order is transitive: `x ≤ y` and `y ≤ z` give `x ≤ z`. -/
protected theorem le_trans (hxy : x ≤ y) (hyz : y ≤ z) : x ≤ z := by
  obtain ⟨a, b, hx, hy, hab⟩ := le_iff.mp hxy
  obtain ⟨b', c, hy', hz, hbc⟩ := le_iff.mp hyz
  obtain rfl := Option.some.inj (hy.symm.trans hy')
  exact le_iff.mpr ⟨a, c, hx, hz, hab.trans hbc⟩

/-- The order is transitive, and strict if the first step is: `x < y` and `y ≤ z` give `x < z`. -/
protected theorem lt_of_lt_of_le (hxy : x < y) (hyz : y ≤ z) : x < z := by
  obtain ⟨a, b, hx, hy, hab⟩ := lt_iff.mp hxy
  obtain ⟨b', c, hy', hz, hbc⟩ := le_iff.mp hyz
  obtain rfl := Option.some.inj (hy.symm.trans hy')
  exact lt_iff.mpr ⟨a, c, hx, hz, hab.trans_le hbc⟩

/-- The order is transitive, and strict if the second step is: `x ≤ y` and `y < z` give `x < z`. -/
protected theorem lt_of_le_of_lt (hxy : x ≤ y) (hyz : y < z) : x < z := by
  obtain ⟨a, b, hx, hy, hab⟩ := le_iff.mp hxy
  obtain ⟨b', c, hy', hz, hbc⟩ := lt_iff.mp hyz
  obtain rfl := Option.some.inj (hy.symm.trans hy')
  exact lt_iff.mpr ⟨a, c, hx, hz, hab.trans_lt hbc⟩

instance : Trans (LE.le : Binary f → Binary f → Prop) LE.le LE.le := ⟨Binary.le_trans⟩

instance : Trans (LT.lt : Binary f → Binary f → Prop) LE.le LT.lt := ⟨Binary.lt_of_lt_of_le⟩

instance : Trans (LE.le : Binary f → Binary f → Prop) LT.lt LT.lt := ⟨Binary.lt_of_le_of_lt⟩

/-- **Totality.** Of two numbers with places one is at most the other: `¬x ≤ y ↔ y < x`. -/
protected theorem not_le (hx : x ≠ nan) (hy : y ≠ nan) : ¬x ≤ y ↔ y < x := by
  obtain ⟨a, ha⟩ := exists_position hx
  obtain ⟨b, hb⟩ := exists_position hy
  rw [le_iff_of_position ha hb, lt_iff_of_position hb ha, Int.not_le]

/-- Among numbers one that is not less is at least as large: `¬x < y ↔ y ≤ x`. -/
protected theorem not_lt (hx : x ≠ nan) (hy : y ≠ nan) : ¬x < y ↔ y ≤ x := by
  obtain ⟨a, ha⟩ := exists_position hx
  obtain ⟨b, hb⟩ := exists_position hy
  rw [lt_iff_of_position ha hb, le_iff_of_position hb ha, Int.not_lt]

/-- Nothing is less than itself: `¬x < x`. -/
protected theorem lt_irrefl (x : Binary f) : ¬x < x := by
  intro h
  obtain ⟨a, b, ha, hb, hab⟩ := lt_iff.mp h
  obtain rfl := Option.some.inj (ha.symm.trans hb)
  exact Int.lt_irrefl a hab

/-- What is positive is not negative: `x.negative = false`. -/
theorem negative_of_pos (h : 0 < x) : x.negative = false := by
  obtain ⟨a, b, ha, hb, hab⟩ := lt_iff.mp h
  obtain rfl := Option.some.inj (ha.symm.trans position_zero)
  match x, hb with
  | .infinity s, hb | .finite s rank, hb =>
    obtain rfl := Option.some.inj hb
    cases s with
    | false => rfl
    | true => exact absurd hab (by simp [signedRank])

/-! ## One number for a place -/

/-- **One number for a place.** Only zero has two. -/
theorem eq_of_position (hx : x.position = some a) (hy : y.position = some a) (h : a ≠ 0) :
    x = y := by
  -- away from zero a place tells sign and rank apart
  have hrank : ∀ {s t : Bool} {r r' : Nat}, signedRank s r = a → signedRank t r' = a →
      s = t ∧ r = r' := by
    intro s t r r' hs ht
    cases s <;> cases t <;> simp [signedRank] at hs ht <;> grind
  match x, y, hx, hy with
  | .infinity s, .infinity t, hx, hy =>
    rw [(hrank (Option.some.inj hx) (Option.some.inj hy)).1]
  | .infinity s, .finite t rank, hx, hy =>
    exact absurd (hrank (Option.some.inj hx) (Option.some.inj hy)).2 rank.isLt.ne'
  | .finite s rank, .infinity t, hx, hy =>
    exact absurd (hrank (Option.some.inj hx) (Option.some.inj hy)).2 rank.isLt.ne
  | .finite s rank, .finite t rank', hx, hy =>
    obtain ⟨hs, hr⟩ := hrank (Option.some.inj hx) (Option.some.inj hy)
    rw [hs, Fin.ext hr]

/-- A number at place `0` is the zero of its sign. -/
theorem eq_signedZero (hx : x.position = some 0) : x = signedZero x.negative := by
  match x, hx with
  | .infinity s, hx =>
    have h := natAbs_signedRank s f.infinityRank
    rw [Option.some.inj hx] at h
    exact absurd h f.infinityRank_pos.ne
  | .finite s rank, hx =>
    have h := natAbs_signedRank s rank
    rw [Option.some.inj hx] at h
    exact congrArg (finite s) (Fin.ext h.symm)

/-- Numbers of the same value and the same sign are the same number. -/
theorem eq_of_sameValue (h : x.sameValue y = true) (hs : x.negative = y.negative) : x = y := by
  obtain ⟨a, hx, hy⟩ := sameValue_iff.mp h
  by_cases ha : a = 0
  · subst ha
    rw [eq_signedZero hx, eq_signedZero hy, hs]
  · exact eq_of_position hx hy ha

/-- Numbers that are at most each other have the same value: `x.sameValue y = true`. -/
theorem sameValue_of_le_of_le (hxy : x ≤ y) (hyx : y ≤ x) : x.sameValue y = true := by
  obtain ⟨a, b, ha, hb, hab⟩ := le_iff.mp hxy
  rw [le_iff_of_position hb ha] at hyx
  exact sameValue_iff.mpr ⟨a, ha, hb.trans (congrArg some (le_antisymm hyx hab))⟩

/-- Numbers of the same value are at most each other: `x ≤ y ∧ y ≤ x`. -/
theorem le_of_sameValue (h : x.sameValue y = true) : x ≤ y ∧ y ≤ x := by
  obtain ⟨a, hx, hy⟩ := sameValue_iff.mp h
  exact ⟨(le_iff_of_position hx hy).mpr le_rfl, (le_iff_of_position hy hx).mpr le_rfl⟩

/-- A number has the same value as itself: `x.sameValue x = true`. -/
theorem sameValue_self (h : x ≠ nan) : x.sameValue x = true :=
  sameValue_of_le_of_le (le_refl_of_ne_nan h) (le_refl_of_ne_nan h)

/-- Positive numbers that are at most each other are the same number. -/
theorem eq_of_le_of_le (hpos : 0 < x) (hxy : x ≤ y) (hyx : y ≤ x) : x = y :=
  eq_of_sameValue (sameValue_of_le_of_le hxy hyx)
    ((negative_of_pos hpos).trans (negative_of_pos (Binary.lt_of_lt_of_le hpos hxy)).symm)

/-- What lies between finite numbers is finite: `y.isFinite = true`. -/
theorem isFinite_of_between (hx : x.isFinite = true) (hz : z.isFinite = true) (hxy : x ≤ y)
    (hyz : y ≤ z) : y.isFinite = true := by
  obtain ⟨a, b, ha, hb, hab⟩ := le_iff.mp hxy
  obtain ⟨b', c, hb', hc, hbc⟩ := le_iff.mp hyz
  obtain rfl := Option.some.inj (hb.symm.trans hb')
  -- finite means strictly between the places of the infinities
  rw [isFinite_iff_of_position ha] at hx
  rw [isFinite_iff_of_position hc] at hz
  rw [isFinite_iff_of_position hb]
  omega

/-! ## Infinities -/

/-- No number is above infinity: `x ≤ infinity false`. -/
theorem le_infinity (h : x ≠ nan) : x ≤ infinity false := by
  obtain ⟨a, ha⟩ := exists_position h
  have hle := natAbs_position_le ha
  rw [le_iff_of_position ha (position_infinity false), signedRank]
  simp only [Bool.false_eq_true, if_false]
  omega

/-- No number is below the negative infinity: `infinity true ≤ x`. -/
theorem infinity_le (h : x ≠ nan) : infinity true ≤ x := by
  obtain ⟨a, ha⟩ := exists_position h
  have hle := natAbs_position_le ha
  rw [le_iff_of_position (position_infinity true) ha, signedRank]
  simp only [if_true]
  omega

/-- Only infinity is past infinity: `x = infinity false`. -/
theorem eq_infinity_of_le (h : infinity false ≤ x) : x = infinity false := by
  have hx := (ne_nan_of_le h).2
  -- nothing is past infinity, so both are at its place
  obtain ⟨a, ha, ha'⟩ := sameValue_iff.mp (sameValue_of_le_of_le (le_infinity hx) h)
  refine eq_of_position ha ha' ?_
  have hpos := f.infinityRank_pos
  simp only [position_infinity, signedRank, Bool.false_eq_true, if_false, Option.some.injEq] at ha'
  omega

/-- Only negative infinity is below negative infinity: `x = infinity true`. -/
theorem eq_infinity_of_ge (h : x ≤ infinity true) : x = infinity true := by
  have hx := (ne_nan_of_le h).1
  obtain ⟨a, ha, ha'⟩ := sameValue_iff.mp (sameValue_of_le_of_le h (infinity_le hx))
  refine eq_of_position ha ha' ?_
  have hpos := f.infinityRank_pos
  simp only [position_infinity, signedRank, if_true, Option.some.injEq] at ha'
  omega

/-- What is not finite, but a number, is an infinity: `∃ s, x = infinity s`. -/
theorem eq_infinity (hx : x ≠ nan) (h : ¬x.isFinite = true) : ∃ s, x = infinity s := by
  match x, hx, h with
  | .infinity s, _, _ => exact ⟨s, rfl⟩
  | .finite s rank, _, h => exact absurd rfl h

/-- An infinity has the sign that its comparison with zero says:
`0 ≤ (infinity s : Binary f) ↔ s = false`. -/
theorem infinity_nonneg_iff (s : Bool) : 0 ≤ (infinity s : Binary f) ↔ s = false := by
  have hpos := f.infinityRank_pos
  rw [le_iff_of_position position_zero (position_infinity s), signedRank]
  cases s
  · simp
  · simp
    omega

/-- The negative infinity is the one below zero: `infinity s ≤ 0 ↔ s = true`. -/
theorem infinity_nonpos_iff (s : Bool) : (infinity s : Binary f) ≤ 0 ↔ s = true := by
  have hpos := f.infinityRank_pos
  rw [le_iff_of_position (position_infinity s) position_zero, signedRank]
  cases s
  · simp
    omega
  · simp

/-! ## The larger of two numbers -/

/-- The larger of two numbers. If the second one is not a number it is the first. -/
def larger (x y : Binary f) : Binary f := if x ≤ y then y else x

/-- The larger of two is the second if that is no less: `larger x y = y`. -/
theorem larger_of_le (h : x ≤ y) : larger x y = y := if_pos h

/-- The larger of two is the first in all other cases: `larger x y = x`. -/
theorem larger_of_not_le (h : ¬x ≤ y) : larger x y = x := if_neg h

/-- The first number is no larger than the larger one: `x ≤ larger x y`. -/
theorem le_larger_left (hx : x ≠ nan) (y : Binary f) : x ≤ larger x y := by
  by_cases h : x ≤ y
  · rwa [larger_of_le h]
  · rw [larger_of_not_le h]
    exact le_refl_of_ne_nan hx

/-- The second number is no larger than the larger one: `y ≤ larger x y`. -/
theorem le_larger_right (hx : x ≠ nan) (hy : y ≠ nan) : y ≤ larger x y := by
  by_cases h : x ≤ y
  · rw [larger_of_le h]
    exact le_refl_of_ne_nan hy
  · rw [larger_of_not_le h]
    exact le_of_lt ((Binary.not_le hx hy).mp h)

/-- A larger first number gives no less: `larger x y ≤ larger z y`. -/
theorem larger_mono_left (h : x ≤ z) (y : Binary f) : larger x y ≤ larger z y := by
  obtain ⟨hx, hz⟩ := ne_nan_of_le h
  by_cases hxy : x ≤ y
  · rw [larger_of_le hxy]
    exact le_larger_right hz (ne_nan_of_le hxy).2
  · rw [larger_of_not_le hxy]
    exact Binary.le_trans h (le_larger_left hz y)

/-- Larger numbers have no less a larger one: `larger x y ≤ larger z w`. -/
theorem larger_mono {w : Binary f} (hx : x ≤ z) (hy : y ≤ w) : larger x y ≤ larger z w := by
  by_cases hxy : x ≤ y
  · rw [larger_of_le hxy]
    exact Binary.le_trans hy (le_larger_right (ne_nan_of_le hx).2 (ne_nan_of_le hy).2)
  · rw [larger_of_not_le hxy]
    exact Binary.le_trans hx (le_larger_left (ne_nan_of_le hx).2 w)

/-- Above the second number, the larger one is less than a number if the first one is:
`larger x y < z ↔ x < z`. -/
theorem larger_lt_iff (hy : y < z) : larger x y < z ↔ x < z := by
  by_cases hxy : x ≤ y
  · rw [larger_of_le hxy]
    exact iff_of_true hy (Binary.lt_of_le_of_lt hxy hy)
  · rw [larger_of_not_le hxy]

/-- If the first number is no less than the second, it has the value of the larger one:
`x.sameValue (larger x y) = true`. -/
theorem sameValue_larger (h : y ≤ x) : x.sameValue (larger x y) = true := by
  by_cases hxy : x ≤ y
  · rw [larger_of_le hxy]
    exact sameValue_of_le_of_le hxy h
  · rw [larger_of_not_le hxy]
    exact sameValue_self (ne_nan_of_le h).2

end Tachometer.Binary
