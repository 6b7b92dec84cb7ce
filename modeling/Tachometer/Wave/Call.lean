import Tachometer.Wave.Program

/-! # Calls to the wave hardware

What is asked of the hardware is data: a row of calls, oldest first, most of them to one of the
state machines.

* `MachineCall`, `Call` — what can be asked of one machine, and of the hardware as a whole.
* `Call.to?` — the part of a call that concerns one machine. -/

namespace Tachometer.Wave

/-- The level of a pin. -/
inductive PinLevel where
  | low
  | high
  deriving DecidableEq, Repr

/-- Which way a pin works. -/
inductive PinDirection where
  | input
  | output
  deriving DecidableEq, Repr

/-- What is asked of one state machine. -/
inductive MachineCall where
  /-- Drives pins. -/
  | setPins (level : PinLevel) (pins : List Nat)
  /-- Chooses which way pins work. -/
  | setDirections (direction : PinDirection) (pins : List Nat)
  /-- Hands over the loaded program, with the pins that it sets. -/
  | configure (sidePins : List Nat)
  /-- Lets it run, or stops it. -/
  | enable (running : Bool)
  /-- Empties its queues. -/
  | clearQueues
  /-- Queues a word. -/
  | push (word : UInt32)
  /-- Makes it run one instruction at once. -/
  | execute (operation : Operation)
  deriving DecidableEq, Repr

/-- What is asked of the hardware. -/
inductive Call where
  /-- Loads a program for all state machines. -/
  | load (program : Program)
  /-- Hands a pin over to the state machines. -/
  | claimPin (pin : Nat)
  /-- Asks something of a state machine. -/
  | machine (index : Nat) (call : MachineCall)
  /-- Reports an output without a state machine. -/
  | missing (channel : Nat)
  deriving DecidableEq, Repr

/-- What a call asks of one state machine, if it asks something of it. -/
def Call.to? (index : Nat) : Call → Option MachineCall
  | .machine i call => if i = index then some call else none
  | _ => none

/-- The text of the report about an output without a state machine. -/
def missingText (channel : Nat) : String := s!"No square wave generator for output {channel}"

/-- A call to a machine is for that machine: `(Call.machine index call).to? index = some call`. -/
@[simp] theorem Call.to?_machine_self (index : Nat) (call : MachineCall) :
    (Call.machine index call).to? index = some call := by
  simp [Call.to?]

end Tachometer.Wave
