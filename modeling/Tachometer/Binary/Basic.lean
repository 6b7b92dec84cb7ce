import Tachometer.Binary.Format

/-! # Binary floating-point numbers

A number of a format is finite (a sign and a rank), an infinity, or not a number. The two zeros
differ in their sign only; all numbers that are not a number are one value.

* `Binary f` — the numbers of the format `f`, with `Binary32` and `Binary64`.
* `Binary.toRat` — the exact value of a finite number.
* `Binary.position` — the place of a number in the numerical order; `≤`, `<` and `sameValue`
  compare places and are false when an operand is not a number. -/

namespace Tachometer

/-- A number of the binary floating-point format `f`. -/
inductive Binary (f : Format) where
  /-- The result of an operation that has no value. -/
  | nan
  /-- Infinity, with its sign. -/
  | infinity (negative : Bool)
  /-- A finite number: its sign and the rank of its magnitude. -/
  | finite (negative : Bool) (rank : Fin f.infinityRank)
  deriving DecidableEq, Repr

/-- Numbers of the 32-bit format. -/
abbrev Binary32 := Binary Format.binary32

/-- Numbers of the 64-bit format. -/
abbrev Binary64 := Binary Format.binary64

namespace Binary

variable {f : Format}

/-- The zero with a given sign. -/
def signedZero (negative : Bool) : Binary f :=
  .finite negative ⟨0, f.infinityRank_pos⟩

instance : Zero (Binary f) := ⟨signedZero false⟩

instance : Inhabited (Binary f) := ⟨0⟩

/-- The exact value of a finite number; the other numbers have none and count as zero. -/
def toRat : Binary f → Rat
  | .finite false rank => f.magnitude rank
  | .finite true rank => -f.magnitude rank
  | _ => 0

/-- Whether the number is finite. -/
def isFinite : Binary f → Bool
  | .finite .. => true
  | _ => false

/-- Whether the number is not a number. -/
def isNaN : Binary f → Bool
  | .nan => true
  | _ => false

/-- The sign of a number; one that is not a number has none and counts as positive. -/
def negative : Binary f → Bool
  | .nan => false
  | .infinity s => s
  | .finite s _ => s

/-- Both zeros have the value zero: `(signedZero s).toRat = 0`. -/
@[simp] theorem toRat_signedZero (s : Bool) : (signedZero s : Binary f).toRat = 0 := by
  cases s <;> simp [signedZero, toRat]

/-- Zero has the value zero: `(0 : Binary f).toRat = 0`. -/
@[simp] theorem toRat_zero : (0 : Binary f).toRat = 0 := toRat_signedZero false

/-- Both zeros are finite: `(signedZero s).isFinite = true`. -/
@[simp] theorem isFinite_signedZero (s : Bool) : (signedZero s : Binary f).isFinite = true := rfl

/-- Zero is finite: `(0 : Binary f).isFinite = true`. -/
@[simp] theorem isFinite_zero : (0 : Binary f).isFinite = true := rfl

/-! ## Numerical order -/

/-- A rank with a sign. -/
def signedRank (negative : Bool) (rank : Nat) : Int :=
  if negative then -(rank : Int) else rank

/-- The place of a number in the numerical order: its rank with its sign, the infinities just
outside the finite numbers. Both zeros are at place `0`; what is not a number has no place. -/
def position : Binary f → Option Int
  | .nan => none
  | .infinity s => some (signedRank s f.infinityRank)
  | .finite s rank => some (signedRank s rank)

/-- Whether two numbers have places, and these satisfy `rel`. -/
def related (rel : Int → Int → Bool) (x y : Binary f) : Bool :=
  match x.position, y.position with
  | some a, some b => rel a b
  | _, _ => false

instance : LE (Binary f) := ⟨fun x y => related (fun a b => a ≤ b) x y = true⟩

instance : LT (Binary f) := ⟨fun x y => related (fun a b => a < b) x y = true⟩

instance (x y : Binary f) : Decidable (x ≤ y) :=
  inferInstanceAs (Decidable (related (fun a b => a ≤ b) x y = true))

instance (x y : Binary f) : Decidable (x < y) :=
  inferInstanceAs (Decidable (related (fun a b => a < b) x y = true))

/-- Numerical equality: the two zeros are the same value, and what is not a number differs from
everything, itself included. -/
def sameValue (x y : Binary f) : Bool := related (fun a b => a == b) x y

/-- What is not a number has no place: `nan.position = none`. -/
@[simp] theorem position_nan : (nan : Binary f).position = none := rfl

/-- Zero is at the origin of the order: `(0 : Binary f).position = some 0`. -/
@[simp] theorem position_zero : (0 : Binary f).position = some 0 := rfl

end Binary

end Tachometer
