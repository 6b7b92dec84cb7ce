import Mathlib.Data.List.TakeWhile
import Tachometer.Decimal.Numeral
import Tachometer.Proofs.Binary.Distance

/-! # The grammar of numerals

A numeral is read exactly where the grammar has one, and says what the grammar says. Its nearest
64-bit number is its exact value, rounded once: the bounds on its leading power only spare the
powers of ten.

* `Numeral.Spells` — the grammar: a text that is a numeral.
* `Numeral.ofChars?_eq_some_iff` — reading follows the grammar.
* `Numeral.nearest_eq_round` — the nearest number is the rounded value.
* `Numeral.Literal` — the texts of floating-point numbers, which include words for infinity and for
  what is not a number. -/

namespace Tachometer.Numeral

/-! ## The grammar -/

/-- A row of decimal digits, which may be empty. -/
def Digits (text : List Char) : Prop := ∀ c ∈ text, c.isDigit = true

/-- An optional sign, and whether it is a minus. -/
inductive Sign : List Char → Bool → Prop where
  /-- No sign. -/
  | absent : Sign [] false
  /-- A plus. -/
  | plus : Sign ['+'] false
  /-- A minus. -/
  | minus : Sign ['-'] true

/-- An integer with the sign that was written. -/
def signedNat (negative : Bool) (n : Nat) : Int := if negative then -(n : Int) else n

/-- An optional exponent part, and the exponent that it gives: a mark, an optional sign and at
least one digit. -/
inductive Exponent : List Char → Int → Prop where
  /-- No exponent part. -/
  | absent : Exponent [] 0
  /-- A mark in either case, an optional sign, digits. -/
  | present {mark : Char} {sign digits : List Char} {negative : Bool}
      (mark_eq : mark = 'e' ∨ mark = 'E') (sign_eq : Sign sign negative)
      (isDigit : Digits digits) (ne_nil : digits ≠ []) :
      Exponent (mark :: (sign ++ digits)) (signedNat negative (Nat.ofDigitChars 10 digits 0))

/-- A text that is a numeral, and what it says. -/
inductive Spells : List Char → Numeral → Prop where
  /-- Digits without a point. -/
  | plain {sign whole tail : List Char} {negative : Bool} {exponent : Int}
      (sign_eq : Sign sign negative) (isDigit : Digits whole) (ne_nil : whole ≠ [])
      (exponent_eq : Exponent tail exponent) :
      Spells (sign ++ (whole ++ tail)) ⟨negative, Nat.ofDigitChars 10 whole 0, exponent⟩
  /-- Digits with a point before, between or after them. -/
  | pointed {sign whole fraction tail : List Char} {negative : Bool} {exponent : Int}
      (sign_eq : Sign sign negative) (isDigit : Digits (whole ++ fraction))
      (ne_nil : whole ++ fraction ≠ []) (exponent_eq : Exponent tail exponent) :
      Spells (sign ++ (whole ++ '.' :: (fraction ++ tail)))
        ⟨negative, Nat.ofDigitChars 10 (whole ++ fraction) 0, exponent - (fraction.length : Int)⟩

/-! ## Reading follows the grammar -/

/-- Whether the first character of a text, if it has one, is of no given kind. -/
def StartsWithNo (kind : Char → Prop) (text : List Char) : Prop :=
  ∀ c rest, text = c :: rest → ¬kind c

/-- A sign is not a digit, a point, or a mark of an exponent part. -/
theorem splitSign_append {sign rest : List Char} {negative : Bool} (hsign : Sign sign negative)
    (hrest : StartsWithNo (fun c => c = '+' ∨ c = '-') rest) :
    splitSign (sign ++ rest) = (negative, rest) := by
  cases hsign with
  | plus | minus => rfl
  | absent =>
    match rest, hrest with
    | [], _ => rfl
    | c :: rest, hrest =>
      have hc := hrest c rest rfl
      rw [List.nil_append, splitSign]
      · rintro rest' ⟨⟩
        exact hc (.inr rfl)
      · rintro rest' ⟨⟩
        exact hc (.inl rfl)

/-- A sign is taken off the front of every text. -/
theorem exists_sign (text : List Char) :
    ∃ sign, Sign sign (splitSign text).1 ∧ text = sign ++ (splitSign text).2 := by
  unfold splitSign
  split
  · exact ⟨['-'], .minus, rfl⟩
  · exact ⟨['+'], .plus, rfl⟩
  · exact ⟨[], .absent, rfl⟩

/-- After digits, which are not of a kind, a text starts with none of it: if there are no digits, by
what follows. -/
theorem startsWithNo_of_digits {kind : Char → Prop} {digits rest : List Char}
    (hdigits : Digits digits) (hkind : ∀ c, c.isDigit = true → ¬kind c)
    (hrest : digits = [] → StartsWithNo kind rest) : StartsWithNo kind (digits ++ rest) := by
  intro c rest' h
  match digits, hdigits with
  | [], _ => exact hrest rfl c rest' h
  | d :: digits, hdigits =>
    obtain ⟨rfl, -⟩ := List.cons.inj h
    exact hkind d (hdigits d List.mem_cons_self)

/-- A digit is not a sign: `¬(c = '+' ∨ c = '-')`. -/
theorem not_sign_of_isDigit {c : Char} (h : c.isDigit = true) : ¬(c = '+' ∨ c = '-') := by
  rintro (rfl | rfl) <;> exact absurd h (by decide)

/-- The digits at the front of a text, and what follows them. -/
theorem takeWhile_digits {digits rest : List Char} (hdigits : Digits digits)
    (hrest : StartsWithNo (fun c => c.isDigit = true) rest) :
    (digits ++ rest).takeWhile Char.isDigit = digits ∧
      (digits ++ rest).dropWhile Char.isDigit = rest := by
  rw [List.takeWhile_append_of_pos hdigits, List.dropWhile_append_of_pos hdigits]
  match rest, hrest with
  | [], _ => simp
  | c :: rest, hrest => simp [hrest c rest rfl]

/-- A text is a natural number exactly if it is one digit or more:
`natural? text = some n ↔ Digits text ∧ text ≠ [] ∧ n = Nat.ofDigitChars 10 text 0`. -/
theorem natural?_eq_some_iff {text : List Char} {n : Nat} :
    natural? text = some n ↔ Digits text ∧ text ≠ [] ∧ n = Nat.ofDigitChars 10 text 0 := by
  unfold natural?
  split
  case isTrue h =>
    have hdigits : Digits text := fun c hc => List.all_eq_true.mp h.2 c hc
    simp [hdigits, h.1, eq_comm]
  case isFalse h =>
    refine ⟨fun hsome => absurd hsome (by simp), ?_⟩
    rintro ⟨hdigits, hne, -⟩
    exact absurd ⟨hne, List.all_eq_true.mpr hdigits⟩ h

/-- After the mark of an exponent there must be a natural number, maybe with a sign. -/
theorem exponent?_cons_of_mark {mark : Char} (h : mark = 'e' ∨ mark = 'E') (rest : List Char) :
    exponent? (mark :: rest) =
      (natural? (splitSign rest).2).map (signedNat (splitSign rest).1) := by
  rw [exponent?, if_pos h]
  obtain ⟨negative, digits⟩ := splitSign rest
  dsimp only
  cases natural? digits <;> rfl

/-- Without its mark there is no exponent: `exponent? (c :: rest) = none`. -/
theorem exponent?_cons_of_not_mark {c : Char} (h : ¬(c = 'e' ∨ c = 'E')) (rest : List Char) :
    exponent? (c :: rest) = none := if_neg h

/-- **Exponent parts** are read as the grammar has them:
`exponent? text = some e ↔ Exponent text e`. -/
theorem exponent?_eq_some_iff {text : List Char} {e : Int} :
    exponent? text = some e ↔ Exponent text e := by
  constructor
  · intro h
    match text, h with
    | [], h =>
      obtain rfl := Option.some.inj h
      exact .absent
    | c :: rest, h =>
      by_cases hmark : c = 'e' ∨ c = 'E'
      · rw [exponent?_cons_of_mark hmark] at h
        obtain ⟨n, hn, rfl⟩ := Option.map_eq_some_iff.mp h
        obtain ⟨hdigits, hne, rfl⟩ := natural?_eq_some_iff.mp hn
        obtain ⟨sign, hsign, hrest⟩ := exists_sign rest
        have hpresent := Exponent.present hmark hsign hdigits hne
        rwa [← hrest] at hpresent
      · rw [exponent?_cons_of_not_mark hmark] at h
        exact absurd h (by simp)
  · intro h
    cases h with
    | absent => rfl
    | @present mark sign digits negative hmark hsign hdigits hne =>
      have hsplit : splitSign (sign ++ digits) = (negative, digits) := by
        refine splitSign_append hsign ?_
        have hstart : StartsWithNo (fun c => c = '+' ∨ c = '-') (digits ++ []) :=
          startsWithNo_of_digits hdigits (fun c => not_sign_of_isDigit)
            fun hnil => absurd hnil hne
        rwa [List.append_nil] at hstart
      rw [exponent?_cons_of_mark hmark, hsplit, natural?_eq_some_iff.mpr ⟨hdigits, hne, rfl⟩,
        Option.map_some]

/-- An exponent part starts with its mark. -/
theorem Exponent.startsWithNo {text : List Char} {e : Int} (h : Exponent text e)
    {kind : Char → Prop} (hlower : ¬kind 'e') (hupper : ¬kind 'E') : StartsWithNo kind text := by
  cases h with
  | absent => exact fun c rest hnil => absurd hnil (by simp)
  | present hmark =>
    rintro c rest hcons
    obtain ⟨rfl, -⟩ := List.cons.inj hcons
    rcases hmark with rfl | rfl
    · exact hlower
    · exact hupper

/-- A point and the digits after it are taken off the front of every text that starts with a
point. -/
theorem splitFraction_cases (text : List Char) :
    splitFraction text = ([], text) ∨
      text = '.' :: ((splitFraction text).1 ++ (splitFraction text).2) := by
  unfold splitFraction
  split
  · exact .inr (by rw [List.takeWhile_append_dropWhile])
  · exact .inl rfl

/-- A text that the grammar has is read as the grammar says: `Numeral.ofChars? text = some x`. -/
theorem Spells.ofChars? {text : List Char} {x : Numeral} (h : Spells text x) :
    Numeral.ofChars? text = some x := by
  cases h with
  | @plain sign whole tail negative exponent hsign hwhole hne hexponent =>
    have hsplit : splitSign (sign ++ (whole ++ tail)) = (negative, whole ++ tail) :=
      splitSign_append hsign (startsWithNo_of_digits hwhole (fun c => not_sign_of_isDigit)
        fun hnil => absurd hnil hne)
    obtain ⟨htake, hdrop⟩ := takeWhile_digits hwhole
      (hexponent.startsWithNo (by decide) (by decide))
    have hpoint : splitFraction tail = ([], tail) := by
      cases hexponent with
      | absent => rfl
      | present hmark => rcases hmark with rfl | rfl <;> rfl
    have hnatural := natural?_eq_some_iff.mpr ⟨hwhole, hne, rfl⟩
    simp only [Numeral.ofChars?, hsplit, htake, hdrop, hpoint, List.append_nil, hnatural,
      exponent?_eq_some_iff.mpr hexponent, List.length_nil, Nat.cast_zero, sub_zero]
  | @pointed sign whole fraction tail negative exponent hsign hdigits hne hexponent =>
    have hwhole : Digits whole := fun c hc => hdigits c (List.mem_append_left _ hc)
    have hfraction : Digits fraction := fun c hc => hdigits c (List.mem_append_right _ hc)
    have hsplit : splitSign (sign ++ (whole ++ '.' :: (fraction ++ tail))) =
        (negative, whole ++ '.' :: (fraction ++ tail)) := by
      refine splitSign_append hsign
        (startsWithNo_of_digits hwhole (fun c => not_sign_of_isDigit) ?_)
      rintro - c rest hcons
      obtain ⟨rfl, -⟩ := List.cons.inj hcons
      decide
    have hstart : StartsWithNo (fun c => c.isDigit = true) ('.' :: (fraction ++ tail)) := by
      rintro c rest hcons
      obtain ⟨rfl, -⟩ := List.cons.inj hcons
      decide
    obtain ⟨htake, hdrop⟩ := takeWhile_digits hwhole hstart
    obtain ⟨htake', hdrop'⟩ := takeWhile_digits hfraction
      (hexponent.startsWithNo (by decide) (by decide))
    have hnatural := natural?_eq_some_iff.mpr ⟨hdigits, hne, rfl⟩
    simp only [Numeral.ofChars?, hsplit, htake, hdrop, splitFraction, htake', hdrop', hnatural,
      exponent?_eq_some_iff.mpr hexponent]

/-- **Reading follows the grammar.** A text is read as a numeral exactly when the grammar has it as
that numeral: `ofChars? text = some x ↔ Spells text x`. -/
theorem ofChars?_eq_some_iff {text : List Char} {x : Numeral} :
    ofChars? text = some x ↔ Spells text x := by
  refine ⟨fun h => ?_, Spells.ofChars?⟩
  obtain ⟨sign, hsign, htext⟩ := exists_sign text
  unfold ofChars? at h
  generalize splitSign text = split at h hsign htext
  obtain ⟨negative, body⟩ := split
  simp only at h hsign htext
  subst htext
  have hbody := List.takeWhile_append_dropWhile (p := Char.isDigit) (l := body)
  generalize body.takeWhile Char.isDigit = whole at h hbody
  generalize body.dropWhile Char.isDigit = rest at h hbody
  subst hbody
  have hrest := splitFraction_cases rest
  generalize splitFraction rest = split at h hrest
  obtain ⟨fraction, tail⟩ := split
  simp only at h hrest
  split at h
  case h_2 => exact absurd h (by simp)
  case h_1 coefficient exponent hnatural hexponent =>
    obtain rfl := Option.some.inj h
    obtain ⟨hdigits, hne, rfl⟩ := natural?_eq_some_iff.mp hnatural
    have htail := exponent?_eq_some_iff.mp hexponent
    rcases hrest with hnone | rfl
    · obtain ⟨rfl, rfl⟩ := Prod.mk.inj hnone
      rw [List.append_nil] at hdigits hne
      simpa using Spells.plain hsign hdigits hne htail
    · exact .pointed hsign hdigits hne htail

/-! ## The nearest number -/

/-- Without its sign a numeral is not negative: `0 ≤ x.magnitude`. -/
theorem magnitude_nonneg (x : Numeral) : 0 ≤ x.magnitude := by
  unfold magnitude
  positivity

/-- A numeral is worth its magnitude with its sign:
`x.value = if x.negative then -x.magnitude else x.magnitude`. -/
theorem value_eq (x : Numeral) : x.value = if x.negative then -x.magnitude else x.magnitude := rfl

/-- A numeral is below its leading power: `x.magnitude < 10 ^ x.leadingPower`. -/
theorem magnitude_lt (x : Numeral) : x.magnitude < 10 ^ x.leadingPower := by
  have hlt : x.coefficient < 10 ^ (Nat.toDigits 10 x.coefficient).length :=
    (Nat.length_toDigits_le_iff (by decide) Nat.length_toDigits_pos).mp le_rfl
  have hcast : (x.coefficient : Rat) < 10 ^ (Nat.toDigits 10 x.coefficient).length := by
    exact_mod_cast hlt
  rw [magnitude, leadingPower, zpow_add₀ (by norm_num), zpow_natCast]
  gcongr

/-- A numeral other than zero is at least a tenth of its leading power:
`10 ^ (x.leadingPower - 1) ≤ x.magnitude`. -/
theorem le_magnitude {x : Numeral} (h : x.coefficient ≠ 0) :
    10 ^ (x.leadingPower - 1) ≤ x.magnitude := by
  obtain ⟨rest, hrest⟩ : ∃ rest, (Nat.toDigits 10 x.coefficient).length = rest + 1 :=
    Nat.exists_eq_succ_of_ne_zero Nat.length_toDigits_pos.ne'
  have hle : 10 ^ rest ≤ x.coefficient := by
    rcases Nat.eq_zero_or_pos rest with rfl | hpos
    · exact Nat.one_le_iff_ne_zero.mpr h
    · by_contra hlt
      have := (Nat.length_toDigits_le_iff (by decide) hpos).mpr (Nat.not_le.mp hlt)
      omega
  have hcast : (10 : Rat) ^ rest ≤ x.coefficient := by
    exact_mod_cast hle
  have hexp : x.leadingPower - 1 = rest + x.scale := by
    rw [leadingPower, hrest]
    push_cast
    ring
  rw [magnitude, hexp, zpow_add₀ (by norm_num), zpow_natCast]
  gcongr

/-- The bounds on the leading power are past both ends of the 64-bit numbers. -/
theorem ten_pow_bounds :
    (10 : Rat) ^ (-331 : Int) ≤ 2 ^ (Format.binary64.minExponent - 1) ∧
      (2 : Rat) ^ 2 ^ (Format.binary64.exponentBits - 1) ≤ 10 ^ (310 : Int) := by
  have hlow : (2 : Rat) ^ 1075 ≤ 10 ^ 331 := by
    exact_mod_cast (by decide +kernel : 2 ^ 1075 ≤ 10 ^ 331)
  have hhigh : (2 : Rat) ^ 1024 ≤ 10 ^ 310 := by
    exact_mod_cast (by decide +kernel : 2 ^ 1024 ≤ 10 ^ 310)
  refine ⟨?_, hhigh⟩
  rw [show Format.binary64.minExponent - 1 = -1075 by decide, zpow_neg, zpow_neg]
  exact inv_anti₀ (by positivity) hlow

/-- **The nearest number** is the value, rounded once: `x.nearest = .round x.negative x.value`. -/
theorem nearest_eq_round (x : Numeral) : x.nearest = .round x.negative x.value := by
  have hround := Binary.round_ite_neg (f := .binary64) x.negative x.magnitude_nonneg
  rw [← value_eq] at hround
  unfold nearest
  split_ifs with hlow hhigh
  · have hzero : Format.binary64.nearestRank x.magnitude = 0 := by
      rcases hlow with hzero | hpower
      · rw [magnitude, hzero, Nat.cast_zero, zero_mul, Format.nearestRank_zero]
      · -- far below the least positive number
        refine Format.nearestRank_eq_zero _ x.magnitude_nonneg ?_
        calc x.magnitude < 10 ^ x.leadingPower := x.magnitude_lt
          _ ≤ 10 ^ (-331 : Int) := zpow_le_zpow_right₀ (by norm_num) (by omega)
          _ ≤ 2 ^ (Format.binary64.minExponent - 1) := ten_pow_bounds.1
    rw [hround, hzero, Binary.ofRank_zero]
  · -- past the end of the finite numbers
    have hend : (2 : Rat) ^ 2 ^ (Format.binary64.exponentBits - 1) ≤ x.magnitude := by
      calc (2 : Rat) ^ 2 ^ (Format.binary64.exponentBits - 1) ≤ 10 ^ (310 : Int) :=
            ten_pow_bounds.2
        _ ≤ 10 ^ (x.leadingPower - 1) := zpow_le_zpow_right₀ (by norm_num) (by omega)
        _ ≤ x.magnitude := le_magnitude fun hzero => hlow (.inl hzero)
    rw [hround, Binary.ofRank_of_le (Format.infinityRank_le_nearestRank _ hend)]
  · rfl

/-- The nearest number from its sign and magnitude. -/
theorem nearest_eq_ofRank (x : Numeral) :
    x.nearest = .ofRank x.negative (Format.binary64.nearestRank x.magnitude) := by
  rw [nearest_eq_round, value_eq, Binary.round_ite_neg _ x.magnitude_nonneg]

/-! ## Literals -/

/-- The text of a 64-bit number, and that number: a numeral and the number nearest to it, or a word
in any case after an optional sign. -/
inductive Literal : List Char → Binary64 → Prop where
  /-- A numeral stands for its rounded value. -/
  | numeral {text : List Char} {x : Numeral} (spells : Spells text x) :
      Literal text (.round x.negative x.value)
  /-- A word for infinity. -/
  | infinity {sign word : List Char} {negative : Bool} (sign_eq : Sign sign negative)
      (word_eq : word.map Char.toLower = "inf".toList ∨
        word.map Char.toLower = "infinity".toList) :
      Literal (sign ++ word) (.infinity negative)
  /-- A word for what is not a number. -/
  | nan {sign word : List Char} {negative : Bool} (sign_eq : Sign sign negative)
      (word_eq : word.map Char.toLower = "nan".toList) : Literal (sign ++ word) .nan

/-- **Finite literals** are the numerals whose nearest number is finite:
`Literal text x ↔ ∃ y, ofChars? text = some y ∧ y.nearest = x`. -/
theorem literal_iff_of_isFinite {text : List Char} {x : Binary64} (hx : x.isFinite = true) :
    Literal text x ↔ ∃ y, ofChars? text = some y ∧ y.nearest = x := by
  constructor
  · intro h
    cases h with
    | @numeral _ y hspells =>
      exact ⟨y, hspells.ofChars?, y.nearest_eq_round⟩
    | infinity => exact absurd hx (by simp [Binary.isFinite])
    | nan => exact absurd hx (by simp [Binary.isFinite])
  · rintro ⟨y, hread, rfl⟩
    rw [y.nearest_eq_round]
    exact .numeral (ofChars?_eq_some_iff.mp hread)

end Tachometer.Numeral
