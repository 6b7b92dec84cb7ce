import Tachometer.Binary.Arithmetic
import Tachometer.Relay.Targets
import Tachometer.Wave.Call

/-! # The bank of wave generators

Four state machines make the waves of four outputs. A machine is only touched while it is
stopped, so its queue is known to be empty and nothing waits for it.

* `period` — the counts in one period of a wave.
* `generate` — the calls that give a machine a new frequency.
* `Bank.setUp`, `Bank.perform` — the calls for the whole bank: at the start, and for a command. -/

namespace Tachometer.Wave

/-! ## One machine -/

/-- The lowest frequency, in hertz, that is generated. A lower one counts as no wave at all, so a
period always fits 32 bits. -/
def lowestFrequency : Binary64 := .round false (1 / 10)

/-- Clock cycles in a count. -/
def cyclesPerCount : Nat := 3

/-- The whole counts in one period of a frequency, in 32 bits. -/
def period (clock : Nat) (frequency : Binary64) : UInt32 :=
  .ofNat ((.ofNat clock / .ofNat cyclesPerCount / frequency : Binary64).truncate 4294967295)

/-- Puts a word into the input shift register of a stopped machine with an empty queue. -/
def loadPeriod (counts : UInt32) : List MachineCall :=
  [.push counts, .execute .pull, .execute .shift]

/-- Gives a machine a frequency. It is stopped first, and its queue is emptied, because a stopped
machine does not empty it. Too low a frequency, or one that is not a number, leaves it stopped
with its pin low. -/
def generate (clock pin : Nat) (frequency : Binary64) : List MachineCall :=
  [.enable false, .clearQueues] ++
    if lowestFrequency ≤ frequency then
      let counts := period clock frequency
      loadPeriod counts ++ [.push (counts / 2), .enable true]
    else [.setPins .low [pin]]

/-! ## The bank -/

/-- Four state machines. -/
structure Bank where
  /-- The frequency of the system clock in hertz. -/
  clock : Nat
  /-- The pin of each machine. -/
  pins : Vector Nat 4
  deriving DecidableEq, Repr

namespace Bank

/-- Prepares a machine and its pin, which starts low. -/
def setUpMachine (pin index : Nat) : List Call :=
  [.claimPin pin, .machine index (.setPins .low [pin]),
    .machine index (.setDirections .output [pin]), .machine index (.configure [pin])]

/-- Prepares the bank: loads the program, then prepares the machines in order. -/
def setUp (bank : Bank) : List Call :=
  .load .squareWave ::
    bank.pins.toList.zipIdx.flatMap fun (pin, index) => setUpMachine pin index

/-- Gives an output a frequency. -/
def setFrequency (bank : Bank) (channel : Nat) (frequency : Binary64) : List Call :=
  if h : channel < 4 then
    (generate bank.clock bank.pins[channel] frequency).map (.machine channel)
  else [.missing channel]

/-- Performs a command. -/
def perform (bank : Bank) (command : Command) : List Call :=
  bank.setFrequency command.channel command.frequency

/-- There are four machines, and a channel past them has none:
`bank.setFrequency channel frequency = [.missing channel]`. -/
@[simp] theorem setFrequency_of_le {bank : Bank} {channel : Nat} (h : 4 ≤ channel)
    (frequency : Binary64) : bank.setFrequency channel frequency = [.missing channel] := by
  simp [setFrequency, Nat.not_lt.mpr h]

end Bank

end Tachometer.Wave
