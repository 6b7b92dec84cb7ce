import Tachometer.Fault

/-! # Input pins

Each input channel listens on a pin of its own below `pinSpace`.

* `pinFault?` — the first channel whose pin cannot be taken, and why.
* `countedEdge` — the edge that counts as a pulse on a channel. -/

namespace Tachometer

/-- The number of pins that an input can be bound to. -/
def pinSpace : Nat := 32

/-- What is wrong with the pin of a channel, given the pins of the channels before it. A pin out
of range is named before a pin that is taken. -/
def channelFault? (earlier : List Nat) (pin channel : Nat) : Option Fault :=
  if pinSpace ≤ pin then some (.inputPinOutOfRange pin channel)
  else (earlier.idxOf? pin).map fun first => .duplicateInputPin pin first channel

/-- What is wrong with a list of pins, by channel: the fault of the first channel that has
one. -/
def pinFault? (pins : List Nat) : Option Fault :=
  pins.zipIdx.findSome? fun (pin, channel) => channelFault? (pins.take channel) pin channel

/-! ## Edges -/

/-- A change of the level on a pin. -/
inductive Edge where
  | rising
  | falling
  deriving DecidableEq, Repr

/-- The edge that counts as a pulse on a channel: falling on the first, rising on the others. -/
def countedEdge (channel : Nat) : Edge :=
  if channel = 0 then .falling else .rising

end Tachometer
