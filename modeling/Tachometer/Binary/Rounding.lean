import Tachometer.Binary.Basic

/-! # Rounding rationals

Every arithmetic result is the exact rational result, rounded once to the nearest number of the
format, a tie going to the even neighbour.

* `roundHalfEven` — the nearest integer of a rational.
* `floorLog2` — the binade of a positive rational.
* `Format.rankOf` — the rank nearest to a positive rational; the carry out of the last digit and
  the step from the last subnormal number to the first normal one are plain additions on ranks.
* `Binary.round` — the nearest number, an infinity past the last finite rank. -/

namespace Tachometer

/-- The nearest integer; half-way cases go to the even neighbour. -/
def roundHalfEven (q : Rat) : Int :=
  let below := q.floor
  let rest := q - below
  if rest < 1 / 2 then below
  else if 1 / 2 < rest then below + 1
  else if below % 2 = 0 then below
  else below + 1

/-- The exponent of the largest power of two that is at most the positive rational `q`. The
difference of the binary lengths of numerator and denominator is right or one too large. -/
def floorLog2 (q : Rat) : Int :=
  let estimate : Int := (q.num.natAbs.log2 : Int) - (q.den.log2 : Int)
  if (2 : Rat) ^ estimate ≤ q then estimate else estimate - 1

namespace Format

variable (f : Format)

/-- The exponent of the last digit that the format keeps of the positive rational `q`. -/
def quantumExponent (q : Rat) : Int :=
  max f.minExponent (floorLog2 q - (f.fractionBits : Int))

/-- The rank of the number nearest to the positive rational `q`, as if ranks had no end. -/
def rankOf (q : Rat) : Nat :=
  let e := f.quantumExponent q
  (e - f.minExponent).toNat * f.binade + (roundHalfEven (q / (2 : Rat) ^ e)).toNat

end Format

namespace Binary

variable {f : Format}

/-- The finite number of a given sign and rank, or infinity when the rank is past the last. -/
def ofRank (negative : Bool) (rank : Nat) : Binary f :=
  if h : rank < f.infinityRank then .finite negative ⟨rank, h⟩ else .infinity negative

/-- The number nearest to `q`. A zero rational has no sign of its own, so the sign of a zero
result is the caller's; a non-zero rational keeps its sign, also when it rounds to zero. -/
def round (negativeZero : Bool) (q : Rat) : Binary f :=
  if q = 0 then signedZero negativeZero
  else if q < 0 then ofRank true (f.rankOf (-q))
  else ofRank false (f.rankOf q)

/-- The number nearest to a natural number. -/
def ofNat (n : Nat) : Binary f := round false n

/-- Zero is rounded to the zero with the given sign: `round s 0 = signedZero s`. -/
@[simp] theorem round_zero (s : Bool) : (round s 0 : Binary f) = signedZero s := by
  simp [round]

end Binary

end Tachometer
