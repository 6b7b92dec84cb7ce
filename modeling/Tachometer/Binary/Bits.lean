import Tachometer.Binary.Basic

/-! # Bit patterns

The sign is the top bit, the rank the rest. Ranks past infinity's stand for what is not a
number.

* `Binary.ofBits`, `Binary.toBits` — a number from its bit pattern, and back.
* `Binary.ofBits_toBits` — reading a number's own bit pattern gives the number. -/

namespace Tachometer

/-- The bits of a number without the sign. -/
def Format.magnitudeBits (f : Format) : Nat := f.exponentBits + f.fractionBits

namespace Binary

variable {f : Format}

/-- The number that a bit pattern encodes. -/
def ofBits (bits : Nat) : Binary f :=
  let negative := bits.testBit f.magnitudeBits
  let rank := bits % (1 <<< f.magnitudeBits)
  if h : rank < f.infinityRank then .finite negative ⟨rank, h⟩
  else if rank = f.infinityRank then .infinity negative
  else .nan

/-- The rank of the bit pattern that stands for what is not a number: the first fraction digit
is set. -/
def nanRank (f : Format) : Nat := f.infinityRank + f.binade / 2

/-- The bit pattern of a number. -/
def toBits : Binary f → Nat
  | .nan => nanRank f
  | .infinity s => s.toNat <<< f.magnitudeBits + f.infinityRank
  | .finite s rank => s.toNat <<< f.magnitudeBits + rank

/-- The ranks below infinity and one more binade fill the bits of a magnitude:
`f.infinityRank + f.binade = 1 <<< f.magnitudeBits`. -/
theorem infinityRank_add_binade : f.infinityRank + f.binade = 1 <<< f.magnitudeBits := by
  have h : 0 < 2 ^ f.exponentBits := Nat.two_pow_pos _
  simp only [Format.infinityRank, Format.binade, Format.magnitudeBits, Nat.one_shiftLeft]
  rw [← Nat.succ_mul, Nat.succ_eq_add_one, Nat.sub_add_cancel h, ← Nat.pow_add]

/-- A sign above a rank that leaves room for it can be read back, and so can the rank. -/
theorem sign_add_rank (width rank : Nat) (h : rank < 1 <<< width) (s : Bool) :
    (s.toNat <<< width + rank).testBit width = s ∧
      (s.toNat <<< width + rank) % (1 <<< width) = rank := by
  rw [Nat.one_shiftLeft] at h ⊢
  rw [Nat.shiftLeft_eq, Nat.testBit_eq_decide_div_mod_eq, Nat.mul_comm]
  constructor
  · rw [Nat.mul_add_div (Nat.two_pow_pos _), Nat.div_eq_of_lt h]
    cases s <;> rfl
  · rw [Nat.mul_add_mod, Nat.mod_eq_of_lt h]

/-- Writing a number as bits and reading them gives the number back: `ofBits x.toBits = x`. -/
theorem ofBits_toBits (x : Binary f) : ofBits x.toBits = x := by
  have hw : f.infinityRank + f.binade = 1 <<< f.magnitudeBits := infinityRank_add_binade
  have hb := f.binade_pos
  match x with
  | .nan =>
    have h : nanRank f < 1 <<< f.magnitudeBits := by unfold nanRank; omega
    have hf : 2 ≤ f.binade := by
      rw [Format.binade, Nat.one_shiftLeft]
      exact Nat.le_self_pow (Nat.ne_of_gt f.fractionBits_pos) 2
    have h₁ : ¬nanRank f < f.infinityRank := by unfold nanRank; omega
    have h₂ : nanRank f ≠ f.infinityRank := by unfold nanRank; omega
    simp [toBits, ofBits, Nat.mod_eq_of_lt h, h₁, h₂]
  | .infinity s =>
    obtain ⟨hs, hr⟩ := sign_add_rank f.magnitudeBits f.infinityRank (by omega) s
    simp [toBits, ofBits, hs, hr]
  | .finite s rank =>
    have := rank.isLt
    obtain ⟨hs, hr⟩ := sign_add_rank f.magnitudeBits rank (by omega) s
    simp [toBits, ofBits, hs, hr]

end Binary

end Tachometer
