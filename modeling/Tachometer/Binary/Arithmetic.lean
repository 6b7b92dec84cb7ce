import Tachometer.Binary.Rounding

/-! # Arithmetic on binary numbers

Each operation settles the cases with an infinity or without a value and rounds the exact result
of the others.

* `+`, `-`, `*`, `/` — the four operations.
* `Binary.convert` — the same number in another format, rounded where it has to be.
* `Binary.truncate` — the integer part, kept between zero and a limit. -/

namespace Tachometer.Binary

variable {f g : Format}

/-- The number with the opposite sign. -/
protected def neg : Binary f → Binary f
  | .nan => .nan
  | .infinity s => .infinity !s
  | .finite s rank => .finite (!s) rank

/-- Sum. Opposite infinities have none; an exact zero is negative only as the sum of two negative
zeros. -/
protected def add : Binary f → Binary f → Binary f
  | .nan, _ => .nan
  | _, .nan => .nan
  | .infinity s, .infinity t => if s = t then .infinity s else .nan
  | .infinity s, .finite .. => .infinity s
  | .finite .., .infinity t => .infinity t
  | .finite s a, .finite t b =>
    round (s && t) (toRat (.finite s a : Binary f) + toRat (.finite t b : Binary f))

/-- Product. Zero times infinity has none; the sign of a zero is that of the factors. -/
protected def mul : Binary f → Binary f → Binary f
  | .nan, _ => .nan
  | _, .nan => .nan
  | .infinity s, .infinity t => .infinity (s != t)
  | .infinity s, .finite t b => if b.val = 0 then .nan else .infinity (s != t)
  | .finite s a, .infinity t => if a.val = 0 then .nan else .infinity (s != t)
  | .finite s a, .finite t b =>
    round (s != t) (toRat (.finite s a : Binary f) * toRat (.finite t b : Binary f))

/-- Quotient. Zero by zero and infinity by infinity have none; any other number by zero is
infinite. -/
protected def div : Binary f → Binary f → Binary f
  | .nan, _ => .nan
  | _, .nan => .nan
  | .infinity _, .infinity _ => .nan
  | .infinity s, .finite t _ => .infinity (s != t)
  | .finite s _, .infinity t => signedZero (s != t)
  | .finite s a, .finite t b =>
    if b.val = 0 then
      if a.val = 0 then .nan else .infinity (s != t)
    else
      round (s != t) (toRat (.finite s a : Binary f) / toRat (.finite t b : Binary f))

instance : Neg (Binary f) := ⟨Binary.neg⟩

instance : Add (Binary f) := ⟨Binary.add⟩

instance : Sub (Binary f) := ⟨fun x y => Binary.add x (-y)⟩

instance : Mul (Binary f) := ⟨Binary.mul⟩

instance : Div (Binary f) := ⟨Binary.div⟩

/-! ## Conversions -/

/-- The number of another format nearest to a number; a zero keeps its sign. -/
def convert : Binary f → Binary g
  | .nan => .nan
  | .infinity s => .infinity s
  | .finite s rank => round s (toRat (.finite s rank : Binary f))

/-- The integer part of a number, at least `0` and at most `limit`. What is not a number gives
`0`. -/
def truncate (limit : Nat) : Binary f → Nat
  | .nan => 0
  | .infinity true => 0
  | .infinity false => limit
  | .finite s rank => min limit (toRat (.finite s rank : Binary f)).floor.toNat

/-- What is not a number stays so in every format: `(convert nan : Binary g) = nan`. -/
@[simp] theorem convert_nan : (convert (nan : Binary f) : Binary g) = nan := rfl

/-- An infinity stays one in every format, with its sign:
`(convert (infinity s) : Binary g) = infinity s`. -/
@[simp] theorem convert_infinity (s : Bool) :
    (convert (infinity s : Binary f) : Binary g) = infinity s := rfl

/-- Cutting off keeps to the limit: `x.truncate limit ≤ limit`. -/
theorem truncate_le (limit : Nat) (x : Binary f) : x.truncate limit ≤ limit := by
  match x with
  | .nan => exact Nat.zero_le _
  | .infinity true => exact Nat.zero_le _
  | .infinity false => exact Nat.le_refl _
  | .finite .. => exact Nat.min_le_left ..

end Tachometer.Binary
