import Tachometer.Relay.Route

/-! # The board

The fixed numbers of the board: eight fans, four outputs to the mainboard, and the pins and links
between them. -/

namespace Tachometer.Board

/-- The number of fans. -/
def fanCount : Nat := 8

/-- The number of outputs. -/
def outputCount : Nat := 4

/-- The pin of each fan's pulses. -/
def inputPins : Vector Nat fanCount := #v[4, 5, 6, 7, 8, 9, 10, 11]

/-- The pin of each output's wave. -/
def outputPins : Vector Nat outputCount := #v[12, 13, 14, 15]

/-- The pulses of a fan per revolution. -/
def pulsesPerRevolution : Nat := 2

/-- The time from one tick to the next. -/
def tickInterval : Span := .ofMicroseconds 100000

/-- Where each output takes its signal from. -/
def links : Vector Link outputCount :=
  #v[⟨0, "lossypeak", "2.0,0.5"⟩, ⟨1, "none", ""⟩, ⟨2, "none", ""⟩, ⟨3, "none", ""⟩]

/-- The board's own pins are accepted: `pinFault? inputPins.toList = none`. -/
theorem pinFault?_inputPins : pinFault? inputPins.toList = none := by decide

end Tachometer.Board
