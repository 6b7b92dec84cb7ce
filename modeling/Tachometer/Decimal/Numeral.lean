import Tachometer.Binary.Rounding

/-! # Decimal numerals

A numeral is an optional sign, digits with an optional point and at least one digit, and an
optional exponent of `e` or `E`, an optional sign and at least one digit. Nothing else may stand
before, between or after these; words for infinity are no numerals.

* `Numeral.ofChars?` — reads a numeral.
* `Numeral.value` — its exact value.
* `Numeral.nearest` — the 64-bit number nearest to it. -/

namespace Tachometer

/-- What a decimal numeral says: a sign, all its digits as one number, and the power of ten by
which that number is scaled. -/
structure Numeral where
  /-- Whether it begins with a minus sign. -/
  negative : Bool
  /-- The number that its digits form without the point. -/
  coefficient : Nat
  /-- The power of ten that the last digit counts. -/
  scale : Int
  deriving DecidableEq, Repr

namespace Numeral

/-! ## Reading -/

/-- Takes a sign off the front of a text; a text without one is positive. -/
def splitSign : List Char → Bool × List Char
  | '-' :: rest => (true, rest)
  | '+' :: rest => (false, rest)
  | text => (false, text)

/-- Takes a point and the digits after it off the front of a text. -/
def splitFraction : List Char → List Char × List Char
  | '.' :: rest => (rest.takeWhile Char.isDigit, rest.dropWhile Char.isDigit)
  | text => ([], text)

/-- The number that a non-empty row of digits forms, if the text is one. -/
def natural? (text : List Char) : Option Nat :=
  if text ≠ [] ∧ text.all Char.isDigit then some (Nat.ofDigitChars 10 text 0) else none

/-- The exponent part of a numeral: what stands after its digits, to the end of the text. -/
def exponent? : List Char → Option Int
  | [] => some 0
  | c :: rest =>
    if c = 'e' ∨ c = 'E' then
      let (negative, digits) := splitSign rest
      (natural? digits).map fun n => if negative then -(n : Int) else n
    else none

/-- Reads a text that is a numeral as a whole. -/
def ofChars? (text : List Char) : Option Numeral :=
  let (negative, body) := splitSign text
  let whole := body.takeWhile Char.isDigit
  let (fraction, rest) := splitFraction (body.dropWhile Char.isDigit)
  match natural? (whole ++ fraction), exponent? rest with
  | some coefficient, some exponent =>
    some ⟨negative, coefficient, exponent - (fraction.length : Int)⟩
  | _, _ => none

/-! ## Value -/

/-- The absolute value of a numeral. -/
def magnitude (x : Numeral) : Rat := (x.coefficient : Rat) * (10 : Rat) ^ x.scale

/-- The value of a numeral. -/
def value (x : Numeral) : Rat := if x.negative then -x.magnitude else x.magnitude

/-- The power of ten that is just above a numeral other than zero. -/
def leadingPower (x : Numeral) : Int :=
  ((Nat.toDigits 10 x.coefficient).length : Int) + x.scale

/-- The 64-bit number nearest to a numeral, a zero keeping its sign. From `10 ^ 310` on every
number is nearest to infinity and below `10 ^ -330` to zero, so powers of ten stay small whatever
the exponent part says. -/
def nearest (x : Numeral) : Binary64 :=
  if x.coefficient = 0 ∨ x.leadingPower < -330 then .signedZero x.negative
  else if 310 < x.leadingPower then .infinity x.negative
  else .round x.negative x.value

end Numeral

end Tachometer
