import Tachometer.Decimal.Millionths
import Tachometer.Proofs.Decimal.Numeral

/-! # Reading decimals with six places back

A decimal with six places is a numeral: the count of millionths, scaled by a millionth.

* `Millionths.numeral` — that numeral, with a sign.
* `Millionths.spells_signed_render` — what is rendered spells it.
* `Millionths.Written`, `Millionths.Written.exists_spells` — the other texts of a count, which spell
  the same value.
* `Millionths.abs_nearest_sub_le` — six places are at most half a millionth off.
* `Millionths.length_render_le` — how long a decimal is. -/

namespace Tachometer.Millionths

/-- A count of millionths with a sign, as a numeral. -/
def numeral (negative : Bool) (count : Nat) : Numeral := ⟨negative, count, -6⟩

/-- A count of millionths has the sign that it is given:
`(numeral negative count).negative = negative`. -/
@[simp] theorem negative_numeral (negative : Bool) (count : Nat) :
    (numeral negative count).negative = negative := rfl

/-- Without its sign a count of millionths is worth its millionth part:
`(numeral negative count).magnitude = count / 1000000`. -/
@[simp] theorem magnitude_numeral (negative : Bool) (count : Nat) :
    (numeral negative count).magnitude = count / 1000000 := by
  rw [numeral, Numeral.magnitude, zpow_neg, div_eq_mul_inv]
  norm_num

/-- A whole has a million millionths: `(whole : Rat) = 1000000`. -/
theorem cast_whole : (whole : Rat) = 1000000 := by
  norm_num [whole]

/-! ## The characters of a decimal -/

/-- The six digits after the point. -/
def places (count : Nat) : List Char := (Nat.toDigits 10 (count % whole)).leftpad 6 '0'

/-- A count is rendered as its wholes, a point and its six places:
`render count = Nat.toDigits 10 (count / whole) ++ '.' :: places count`. -/
theorem render_eq (count : Nat) :
    render count = Nat.toDigits 10 (count / whole) ++ '.' :: places count := rfl

/-- The digits of a number are digits: `Numeral.Digits (Nat.toDigits 10 n)`. -/
theorem digits_toDigits (n : Nat) : Numeral.Digits (Nat.toDigits 10 n) :=
  fun _ hc => Nat.isDigit_of_mem_toDigits (by decide) (by decide) hc

/-- The places are digits: `Numeral.Digits (places count)`. -/
theorem digits_places (count : Nat) : Numeral.Digits (places count) := by
  intro c hc
  rcases List.mem_append.mp hc with hpad | hdigit
  · rw [List.eq_of_mem_replicate hpad]
    rfl
  · exact digits_toDigits _ c hdigit

/-- There are six places, with zeros in front if need be: `(places count).length = 6`. -/
@[simp] theorem length_places (count : Nat) : (places count).length = 6 := by
  have hlt : count % whole < 10 ^ 6 := Nat.mod_lt _ (by decide)
  have hle := (Nat.length_toDigits_le_iff (b := 10) (k := 6) (by decide) (by decide)).mpr hlt
  rw [places, List.length_leftpad]
  omega

/-- Padding does not change a number: `Nat.ofDigitChars 10 (places count) 0 = count % whole`. -/
theorem ofDigitChars_places (count : Nat) :
    Nat.ofDigitChars 10 (places count) 0 = count % whole := by
  rw [places, List.leftpad, Nat.ofDigitChars_append, Nat.ofDigitChars_replicate_zero, Nat.mul_zero,
    Nat.ofDigitChars_ten_toDigits]

/-- All digits of a decimal form its count. -/
theorem ofDigitChars_digits (count : Nat) :
    Nat.ofDigitChars 10 (Nat.toDigits 10 (count / whole) ++ places count) 0 = count := by
  rw [Nat.ofDigitChars_append, Nat.ofDigitChars_ten_toDigits, Nat.ofDigitChars_eq_ofDigitChars_zero,
    ofDigitChars_places, length_places]
  exact Nat.div_add_mod count whole

/-- **Reading back.** A rendered decimal spells its numeral. -/
theorem spells_signed_render (negative : Bool) (count : Nat) :
    Numeral.Spells (signed negative (render count)) (numeral negative count) := by
  have hdigits : Numeral.Digits (Nat.toDigits 10 (count / whole) ++ places count) := by
    intro c hc
    rcases List.mem_append.mp hc with hwhole | hplace
    · exact digits_toDigits _ c hwhole
    · exact digits_places _ c hplace
  have hsign : ∃ sign, Numeral.Sign sign negative ∧
      signed negative (render count) = sign ++ render count := by
    cases negative with
    | false => exact ⟨[], .absent, rfl⟩
    | true => exact ⟨['-'], .minus, rfl⟩
  obtain ⟨sign, hsign, htext⟩ := hsign
  have hspells := Numeral.Spells.pointed hsign hdigits
    (List.append_ne_nil_of_left_ne_nil Nat.toDigits_ne_nil _) Numeral.Exponent.absent
  rw [List.append_nil, ofDigitChars_digits, length_places] at hspells
  rw [htext]
  exact hspells

/-- The characters of a decimal. -/
def IsPlain (c : Char) : Prop := c.isDigit = true ∨ c = '.' ∨ c = '-'

/-- Nothing but digits, a point and a minus is rendered: `IsPlain c` for each `c` in
`signed negative (render count)`. -/
theorem isPlain_of_mem {negative : Bool} {count : Nat} {c : Char}
    (h : c ∈ signed negative (render count)) : IsPlain c := by
  have hrender : ∀ c ∈ render count, IsPlain c := by
    intro c hc
    rcases List.mem_append.mp hc with hwhole | hplace
    · exact .inl (digits_toDigits _ c hwhole)
    · rcases List.mem_cons.mp hplace with rfl | hplace
      · exact .inr (.inl rfl)
      · exact .inl (digits_places _ c hplace)
  cases negative with
  | false => exact hrender c h
  | true =>
    rcases List.mem_cons.mp h with rfl | h
    · exact .inr (.inr rfl)
    · exact hrender c h

/-- A decimal has a point, six places, and the digits of its wholes:
`(render count).length ≤ size + 7`. -/
theorem length_render_le {count size : Nat} (hsize : 0 < size) (h : count / whole < 10 ^ size) :
    (render count).length ≤ size + 7 := by
  have hle := (Nat.length_toDigits_le_iff (b := 10) (by decide) hsize).mpr h
  rw [render_eq, List.length_append, List.length_cons, length_places]
  omega

/-! ## Texts of a count -/

/-- A text of a count of millionths: digits for the wholes, then maybe a point and up to six digits
for the places. There may be zeros in front, and places may be missing at the end. -/
inductive Written : List Char → Nat → Prop where
  /-- Wholes alone. -/
  | wholes {digits : List Char} (isDigit : Numeral.Digits digits) (ne_nil : digits ≠ []) :
      Written digits (Nat.ofDigitChars 10 digits 0 * whole)
  /-- Wholes and places. -/
  | pointed {digits fraction : List Char} (isDigit : Numeral.Digits digits) (ne_nil : digits ≠ [])
      (isDigit_fraction : Numeral.Digits fraction) (fraction_ne_nil : fraction ≠ [])
      (length_le : fraction.length ≤ 6) :
      Written (digits ++ '.' :: fraction)
        (Nat.ofDigitChars 10 digits 0 * whole +
          Nat.ofDigitChars 10 fraction 0 * 10 ^ (6 - fraction.length))

/-- Places count for less the more of them there are. -/
theorem wholes_add_places (wholes fraction : Nat) {size : Nat} (h : size ≤ 6) :
    ((wholes * 10 ^ size + fraction : Nat) : Rat) * 10 ^ (-(size : Int)) =
      ((wholes * whole + fraction * 10 ^ (6 - size) : Nat) : Rat) / 1000000 := by
  have hsplit : (10 : Rat) ^ size * 10 ^ (6 - size) = 1000000 := by
    rw [← pow_add, Nat.add_sub_cancel' h]
    norm_num
  rw [zpow_neg, zpow_natCast, ← div_eq_mul_inv, div_eq_div_iff (by positivity) (by norm_num),
    ← hsplit]
  push_cast
  rw [cast_whole, ← hsplit]
  ring

/-- **Reading a count.** Every text of a count spells a numeral without a minus whose value is that
many millionths. -/
theorem Written.exists_spells {text : List Char} {count : Nat} (h : Written text count) :
    ∃ x, Numeral.Spells text x ∧ x.negative = false ∧ x.magnitude = count / 1000000 := by
  cases h with
  | wholes hdigits hne =>
    have hspells := Numeral.Spells.plain .absent hdigits hne .absent
    rw [List.append_nil] at hspells
    refine ⟨_, hspells, rfl, ?_⟩
    have hvalue := wholes_add_places (Nat.ofDigitChars 10 text 0) 0 (Nat.zero_le 6)
    rw [pow_zero, Nat.mul_one, Nat.zero_mul, Nat.add_zero, Nat.add_zero] at hvalue
    exact hvalue
  | @pointed digits fraction hdigits hne hfraction _ hlength =>
    have hall : Numeral.Digits (digits ++ fraction) := by
      intro c hc
      rcases List.mem_append.mp hc with hwhole | hplace
      · exact hdigits c hwhole
      · exact hfraction c hplace
    have hspells := Numeral.Spells.pointed .absent hall
      (List.append_ne_nil_of_left_ne_nil hne fraction) .absent
    rw [List.append_nil, Nat.ofDigitChars_append, Nat.ofDigitChars_eq_ofDigitChars_zero,
      Nat.mul_comm (10 ^ _), zero_sub] at hspells
    exact ⟨_, hspells, rfl, wholes_add_places _ _ hlength⟩

/-! ## The nearest decimal -/

/-- The nearest count in the rationals:
`((nearest q : Nat) : Rat) = roundHalfEven (q * 1000000)`. -/
theorem natCast_nearest {q : Rat} (hq : 0 ≤ q) :
    ((nearest q : Nat) : Rat) = roundHalfEven (q * 1000000) := by
  have hnonneg : 0 ≤ roundHalfEven (q * 1000000) := by
    rw [← roundHalfEven_intCast 0]
    exact roundHalfEven_mono (by positivity)
  obtain ⟨n, hn⟩ := Int.eq_ofNat_of_zero_le hnonneg
  rw [nearest, cast_whole, hn]
  rfl

/-- **The nearest decimal** is at most half a millionth off:
`|(nearest q : Rat) / 1000000 - q| ≤ 1 / 2000000`. -/
theorem abs_nearest_sub_le {q : Rat} (hq : 0 ≤ q) :
    |(nearest q : Rat) / 1000000 - q| ≤ 1 / 2000000 := by
  have hround := abs_le.mp (abs_roundHalfEven_sub_le (q * 1000000))
  rw [natCast_nearest hq, abs_le]
  constructor <;> linarith

/-- Whole millionths are their own nearest decimal: `nearest q = count`. -/
theorem nearest_of_mul_eq {q : Rat} {count : Nat} (h : q * 1000000 = count) :
    nearest q = count := by
  rw [nearest, cast_whole, h, roundHalfEven_natCast, Int.toNat_natCast]

/-- A number that is less than half a millionth from a decimal has that one as its nearest:
`nearest q = count`. -/
theorem nearest_eq_of_abs_lt {q : Rat} {count : Nat} (h : |q - count / 1000000| < 1 / 2000000) :
    nearest q = count := by
  have hround : roundHalfEven (q * 1000000) = (count : Int) := by
    refine roundHalfEven_eq_of_abs_lt ?_
    obtain ⟨hlow, hhigh⟩ := abs_lt.mp h
    rw [abs_lt]
    push_cast
    constructor <;> linarith
  rw [nearest, cast_whole, hround, Int.toNat_natCast]

end Tachometer.Millionths
