import Tachometer.Proofs.Binary.Distance

/-! # Half-way between neighbours

A rational is rounded to a place or a later one exactly when it is past the middle between that
place and the one before it. In the middle itself the even place wins.

* `roundHalfEven_le_iff` — the same for integers.
* `Format.rankOf_le_iff` — the nearest rank of a positive rational.
* `Format.halfBelow`, `Format.place_lt_iff` — the nearest place of any rational.
* `Binary.round_lt_iff` — when a rounded result is less than a number. -/

namespace Tachometer

/-- **The nearest integer is at most another** when the rational is below the middle between that
one and the next, or in the middle and that one is even. -/
theorem roundHalfEven_le_iff {q : Rat} {k : Int} :
    roundHalfEven q ≤ k ↔ q < k + 1 / 2 ∨ q = k + 1 / 2 ∧ k % 2 = 0 := by
  obtain ⟨hlow, hhigh⟩ := abs_le.mp (abs_roundHalfEven_sub_le q)
  rcases lt_trichotomy q (k + 1 / 2) with hlt | heq | hgt
  · refine iff_of_true ?_ (.inl hlt)
    have hround : (roundHalfEven q : Rat) < k + 1 := by
      linarith
    norm_cast at hround
    omega
  · -- only the middle is a tie, and its nearest integer is even
    have hge : (k : Rat) ≤ roundHalfEven q := by
      linarith
    have hle : (roundHalfEven q : Rat) ≤ k + 1 := by
      linarith
    norm_cast at hge hle
    have heven := roundHalfEven_add_half_emod k
    rw [← heq] at heven
    constructor
    · intro h
      exact .inr ⟨heq, by omega⟩
    · rintro (hlt | ⟨-, hk⟩)
      · exact absurd heq hlt.ne
      · omega
  · refine iff_of_false ?_ ?_
    · have hround : (k : Rat) < roundHalfEven q := by
        linarith
      norm_cast at hround
      omega
    · rintro (hlt | ⟨heq, -⟩)
      · exact absurd hlt hgt.not_gt
      · exact hgt.ne' heq

namespace Format

variable (f : Format)

/-- A binade holds an even number of ranks: `f.binade % 2 = 0`. -/
theorem binade_emod_two : f.binade % 2 = 0 := by
  obtain ⟨width, hwidth⟩ := Nat.exists_eq_succ_of_ne_zero f.fractionBits_pos.ne'
  rw [binade_eq_two_pow, hwidth, Nat.succ_eq_add_one, pow_succ, Nat.mul_mod_left]

/-- **The nearest rank is at most another** when the rational is below the middle between that one
and the next, or in the middle and that one is even. -/
theorem rankOf_le_iff {q : Rat} (hq : 0 < q) (rank : Nat) :
    f.rankOf q ≤ rank ↔ q < (f.magnitude rank + f.magnitude (rank + 1)) / 2 ∨
      q = (f.magnitude rank + f.magnitude (rank + 1)) / 2 ∧ rank % 2 = 0 := by
  have hstep := f.magnitude_lt_iff.mpr (Nat.lt_succ_self rank)
  rcases lt_or_ge q (f.magnitude rank) with hbelow | hge
  · have hpos : 0 < rank := by
      rw [← f.magnitude_lt_iff, f.magnitude_zero]
      exact hq.trans hbelow
    have hle := f.rankOf_mono hq hbelow.le
    rw [f.rankOf_magnitude hpos] at hle
    exact iff_of_true hle (.inl (by linarith))
  · rcases lt_or_ge q (f.magnitude (rank + 1)) with hlt | habove
    · -- between the two ranks the digits are rounded, at the level of the lower one
      obtain ⟨level, digits, rfl, hdigits, hlevel⟩ := f.exists_level rank
      have hunit : (0 : Rat) < 2 ^ (f.minExponent + level) := by
        positivity
      have hnext : level = 0 ∨ f.binade ≤ digits + 1 :=
        hlevel.imp_right fun h => h.trans (Nat.le_succ _)
      have hlow := f.magnitude_level hdigits.le hlevel
      have hhigh : f.magnitude (level * f.binade + digits + 1) =
          ((digits + 1 : Nat) : Rat) * 2 ^ (f.minExponent + level) :=
        f.magnitude_level hdigits hnext
      rw [hlow] at hge
      rw [hhigh] at hlt
      have hmiddle : (f.magnitude (level * f.binade + digits) +
          f.magnitude (level * f.binade + digits + 1)) / 2 =
            ((digits : Int) + 1 / 2 : Rat) * 2 ^ (f.minExponent + level) := by
        rw [hlow, hhigh]
        push_cast
        ring
      have hquantum : f.quantumExponent q = f.minExponent + level := by
        refine f.quantumExponent_eq hq (hlt.trans_le ?_) (hlevel.imp_right fun h => le_trans ?_ hge)
        · have hcast : ((digits + 1 : Nat) : Rat) ≤ 2 * f.binade := by
            exact_mod_cast hdigits
          gcongr
        · have hcast : (f.binade : Rat) ≤ digits := by
            exact_mod_cast h
          gcongr
      have hrank : f.rankOf q =
          level * f.binade + (roundHalfEven (q / 2 ^ (f.minExponent + level))).toNat := by
        rw [rankOf, hquantum, add_sub_cancel_left, Int.toNat_natCast]
      have hparity : (level * f.binade + digits) % 2 = digits % 2 := by
        rw [Nat.add_mod, Nat.mul_mod, f.binade_emod_two, Nat.mul_zero, Nat.zero_mod, Nat.zero_add,
          Nat.mod_mod]
      rw [hmiddle, hrank, hparity, Nat.add_le_add_iff_left, Int.toNat_le, roundHalfEven_le_iff,
        div_lt_iff₀ hunit, div_eq_iff hunit.ne']
      exact or_congr_right (and_congr_right fun _ => by omega)
    · have hle := f.rankOf_mono (f.magnitude_pos (Nat.succ_pos rank)) habove
      rw [f.rankOf_magnitude (Nat.succ_pos rank)] at hle
      refine iff_of_false (by omega) ?_
      rintro (hlt | ⟨heq, -⟩)
      · linarith
      · linarith

/-! ## Places -/

/-- The rational half-way between a place and the one below it. -/
def halfBelow (place : Int) : Rat := (f.value (place - 1) + f.value place) / 2

/-- Below a negative place it is halfway as above the positive one:
`f.halfBelow (-place) = -f.halfBelow (place + 1)`. -/
theorem halfBelow_neg (place : Int) : f.halfBelow (-place) = -f.halfBelow (place + 1) := by
  rw [halfBelow, halfBelow, ← neg_add', f.value_neg, f.value_neg, add_sub_cancel_right]
  ring

/-- A rational is before a positive place when it is below the middle, or in it and the place is
odd. -/
theorem place_lt_iff_of_pos {q : Rat} {rank : Nat} (h : rank < f.infinityRank) :
    f.place q < rank + 1 ↔
      q < f.halfBelow (rank + 1) ∨ q = f.halfBelow (rank + 1) ∧ rank % 2 = 0 := by
  have hmiddle : f.halfBelow (rank + 1) = (f.magnitude rank + f.magnitude (rank + 1)) / 2 := by
    rw [halfBelow, add_sub_cancel_right, ← Nat.cast_succ, f.value_natCast, f.value_natCast]
  rcases le_or_gt q 0 with hq | hq
  · have hplace := f.place_mono hq
    have hnonneg := f.magnitude_nonneg rank
    have hpos := f.magnitude_pos (Nat.succ_pos rank)
    rw [f.place_zero] at hplace
    refine iff_of_true (by omega) (.inl ?_)
    rw [hmiddle]
    linarith
  · rw [f.place_of_pos hq, hmiddle, ← f.rankOf_le_iff hq]
    omega

/-- **The nearest place is before another** when the rational is below the middle between that one
and the one before it, or in the middle and that one is odd. -/
theorem place_lt_iff {q : Rat} {a : Int} (hlow : -(f.infinityRank : Int) < a)
    (hhigh : a ≤ f.infinityRank) :
    f.place q < a ↔ q < f.halfBelow a ∨ q = f.halfBelow a ∧ a % 2 = 1 := by
  rcases le_or_gt a 0 with ha | ha
  · -- the opposite places: the other side of the middle, where even wins against odd
    obtain ⟨rank, rfl⟩ : ∃ rank : Nat, a = -rank := ⟨a.natAbs, by omega⟩
    have hrank : rank < f.infinityRank := by
      omega
    have hopposite := f.place_lt_iff_of_pos (q := -q) hrank
    rw [f.place_neg] at hopposite
    rw [f.halfBelow_neg]
    calc f.place q < -rank ↔ ¬-f.place q < rank + 1 := by omega
      _ ↔ ¬(-q < f.halfBelow (rank + 1) ∨ -q = f.halfBelow (rank + 1) ∧ rank % 2 = 0) :=
        not_congr hopposite
      _ ↔ q < -f.halfBelow (rank + 1) ∨ q = -f.halfBelow (rank + 1) ∧ (-rank : Int) % 2 = 1 := by
        rw [neg_lt, neg_eq_iff_eq_neg]
        rcases lt_trichotomy q (-f.halfBelow (rank + 1)) with hlt | heq | hgt
        · simp [hlt, hlt.not_gt, hlt.ne]
        · -- in the middle the parity decides
          have hparity : ¬rank % 2 = 0 ↔ (-rank : Int) % 2 = 1 := by
            omega
          simpa [heq] using hparity
        · simp [hgt, hgt.not_gt, hgt.ne']
  · obtain ⟨rank, rfl⟩ : ∃ rank : Nat, a = rank + 1 := ⟨(a - 1).toNat, by omega⟩
    rw [f.place_lt_iff_of_pos (by omega)]
    exact or_congr_right (and_congr_right fun _ => by omega)

end Format

/-- **A rounded result is less than a finite number** when the exact one is below the middle
between that number and the next lower one, or in the middle and the number is odd. -/
theorem Binary.round_lt_iff {f : Format} {x : Binary f} {a : Int} {q : Rat} (s : Bool)
    (hx : x.isFinite = true) (ha : x.position = some a) :
    round s q < x ↔ q < f.halfBelow a ∨ q = f.halfBelow a ∧ a % 2 = 1 := by
  have hrange := (isFinite_iff_of_position ha).mp hx
  rw [lt_iff_of_position (position_round s q) ha, f.place_lt_iff (by omega) (by omega)]

end Tachometer
