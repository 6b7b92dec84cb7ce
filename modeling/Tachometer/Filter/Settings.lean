import Tachometer.Decimal.Millionths
import Tachometer.Decimal.Numeral
import Tachometer.Filter.PeakHold

/-! # The settings text of a peak hold

The text has two numerals, the drop per second and the hold delay in seconds, separated by
commas. Empty fields do not count, and what follows the second field is ignored.

* `Settings.ofText?` — the settings that a text gives.
* `Settings.text?` — the text of settings, both numbers with six places. -/

namespace Tachometer.PeakHold.Settings

/-! ## Reading -/

/-- The fields of a text: its pieces between commas, without the empty ones. -/
def fields (text : List Char) : List (List Char) :=
  (text.splitOn ',').filter fun field => !field.isEmpty

/-- The 64-bit number nearest to a field that is a numeral, if it is finite. -/
def number? (field : List Char) : Option Binary64 :=
  ((Numeral.ofChars? field).map Numeral.nearest).filter Binary.isFinite

/-- The settings of two numbers, if the first is not too large for the smaller format. -/
def ofNumbers? (rate delay : Binary64) : Option Settings :=
  let rate : Binary32 := rate.convert
  if rate.isFinite then some ⟨rate, .ofSeconds delay⟩ else none

/-- The settings that the fields of a text give. -/
def ofFields? : List (List Char) → Option Settings
  | first :: second :: _ =>
    match number? first, number? second with
    | some rate, some delay => ofNumbers? rate delay
    | _, _ => none
  | _ => none

/-- The settings that a text gives. -/
def ofText? (text : String) : Option Settings := ofFields? (fields text.toList)

/-! ## Printing -/

/-- The longest text that is printed. The text is written into a buffer of so many bytes, and it is
assumed of the buffer that writing to it fails exactly when the text does not fit, and that it holds
the text unchanged otherwise. Every character of the text takes one byte. -/
def maxLength : Nat := 128

/-- The two fields of the text, with the comma between them. -/
def chars (s : Settings) : List Char :=
  Millionths.ofBinary s.rate ++ ',' :: Millionths.render s.delay.microseconds.toNat

/-- The text of settings, unless it is too long. -/
def text? (s : Settings) : Option String :=
  if s.chars.length ≤ maxLength then some (String.ofList s.chars) else none

/-- No field gives no settings: `ofFields? [] = none`. -/
@[simp] theorem ofFields?_nil : ofFields? [] = none := rfl

/-- One field gives no settings: `ofFields? [field] = none`. -/
@[simp] theorem ofFields?_singleton (field : List Char) : ofFields? [field] = none := rfl

/-- What follows the second field does not count:
`ofFields? (first :: second :: rest) = ofFields? [first, second]`. -/
@[simp] theorem ofFields?_cons_cons (first second : List Char) (rest : List (List Char)) :
    ofFields? (first :: second :: rest) = ofFields? [first, second] := rfl

end Tachometer.PeakHold.Settings
