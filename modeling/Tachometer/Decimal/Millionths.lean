import Tachometer.Binary.Rounding

/-! # Decimals with six places

A decimal with six places is a count of millionths.

* `Millionths.render` — the decimal of a count.
* `Millionths.ofBinary` — the decimal of a binary number, the nearest one there is. -/

namespace Tachometer.Millionths

/-- Millionths in a whole. -/
def whole : Nat := 1000000

/-- The decimal of a count of millionths: the wholes, a point, and six digits. -/
def render (count : Nat) : List Char :=
  Nat.toDigits 10 (count / whole) ++ '.' :: (Nat.toDigits 10 (count % whole)).leftpad 6 '0'

/-- The count of millionths nearest to a non-negative rational, a tie going to the even count. -/
def nearest (q : Rat) : Nat := (roundHalfEven (q * (whole : Rat))).toNat

/-- The sign of a number in front of a text for its magnitude. -/
def signed (negative : Bool) (text : List Char) : List Char :=
  if negative then '-' :: text else text

/-- A binary number with six places. The sign is kept also where no digit but zero is left. -/
def ofBinary {f : Format} : Binary f → List Char
  | .nan => ['N', 'a', 'N']
  | .infinity s => signed s ['i', 'n', 'f']
  | .finite s rank => signed s (render (nearest (f.magnitude rank)))

/-- A negative number has a minus before its digits: `signed true text = '-' :: text`. -/
@[simp] theorem signed_true (text : List Char) : signed true text = '-' :: text := rfl

/-- A number that is not negative has its digits only: `signed false text = text`. -/
@[simp] theorem signed_false (text : List Char) : signed false text = text := rfl

end Tachometer.Millionths
