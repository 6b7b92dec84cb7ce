import Tachometer.Wave.Call

/-! # State machines

What a state machine does with its calls and, while it runs, with each clock cycle.

* `Machine.execute` — the effect of an operation on the registers and the queue.
* `Machine.obey` — the effect of a call.
* `Machine.cycle` — one clock cycle of a running machine: the pin first, then the operation, and
  the next instruction unless it jumps. -/

namespace Tachometer.Wave

/-- A state machine. -/
structure Machine where
  /-- Whether it runs. -/
  running : Bool
  /-- The words that wait for it, oldest first. -/
  queue : List UInt32
  /-- The first scratch register. -/
  x : UInt32
  /-- The second scratch register. -/
  y : UInt32
  /-- The input shift register. -/
  inputShift : UInt32
  /-- The output shift register. -/
  outputShift : UInt32
  /-- The number of the instruction that it runs next. -/
  next : Nat
  /-- The level that it drives its pin to. -/
  pin : PinLevel
  deriving DecidableEq, Repr

namespace Machine

/-- A stopped machine that nothing was asked of yet. -/
def idle : Machine := ⟨false, [], 0, 0, 0, 0, 0, .low⟩

/-! ## Operations -/

/-- The word in a register. -/
def get (s : Machine) : Register → UInt32
  | .x => s.x
  | .y => s.y
  | .inputShift => s.inputShift
  | .outputShift => s.outputShift

/-- The machine with a word put into a register. -/
def put (s : Machine) (register : Register) (word : UInt32) : Machine :=
  match register with
  | .x => { s with x := word }
  | .y => { s with y := word }
  | .inputShift => { s with inputShift := word }
  | .outputShift => { s with outputShift := word }

/-- Whether a jump on a condition is taken. -/
def meets (s : Machine) : Condition → Bool
  | .always => true
  | .countDownY => s.y != 0
  | .xDiffersY => s.x != s.y

/-- The machine after a condition was tested. -/
def tested (s : Machine) : Condition → Machine
  | .countDownY => { s with y := s.y - 1 }
  | _ => s

/-- The machine after an operation. -/
def execute (s : Machine) : Operation → Machine
  | .jump condition target =>
    if s.meets condition then { s.tested condition with next := target } else s.tested condition
  | .pull =>
    match s.queue with
    | word :: rest => { s with outputShift := word, queue := rest }
    | [] => { s with outputShift := s.x }
  | .move destination source => s.put destination (s.get source)
  | .shift => { s with inputShift := s.outputShift, outputShift := 0 }

/-! ## Calls -/

/-- The machine after a call. Handing over a program also sends it to the first instruction. -/
def obey (s : Machine) : MachineCall → Machine
  | .setPins level _ => { s with pin := level }
  | .setDirections .. => s
  | .configure _ => { s with next := 0 }
  | .enable running => { s with running }
  | .clearQueues => { s with queue := [] }
  | .push word => { s with queue := s.queue ++ [word] }
  | .execute operation => s.execute operation

/-- The machine of a given number after a row of calls, oldest first. -/
def after (s : Machine) (index : Nat) (calls : List Call) : Machine :=
  (calls.filterMap (Call.to? index)).foldl obey s

/-! ## Cycles -/

/-- The number of the instruction that follows another one in a program. -/
def following (program : Program) (number : Nat) : Nat :=
  if number = program.wrapSource then program.wrapTarget else number + 1

/-- The level that an instruction sets the pin to, or the present one. -/
def sideLevel (present : PinLevel) : Option Bool → PinLevel
  | none => present
  | some true => .high
  | some false => .low

/-- The machine after one clock cycle of a program. A stopped machine stays as it is. -/
def cycle (program : Program) (s : Machine) : Machine :=
  if s.running then
    match program.instructions[s.next]? with
    | some i =>
      { s with pin := sideLevel s.pin i.side, next := following program s.next }.execute
        i.operation
    | none => s
  else s

/-- The machine after a number of clock cycles. -/
def cycles (program : Program) : Nat → Machine → Machine
  | 0, s => s
  | count + 1, s => cycles program count (s.cycle program)

/-- The level of the pin in each of a number of clock cycles; an instruction sets the pin in its
own cycle. -/
def wave (program : Program) : Nat → Machine → List PinLevel
  | 0, _ => []
  | count + 1, s => (s.cycle program).pin :: wave program count (s.cycle program)

/-- No calls change nothing: `s.after index [] = s`. -/
@[simp] theorem after_nil (s : Machine) (index : Nat) : s.after index [] = s := rfl

/-- Calls are made in order:
`s.after index (first ++ second) = (s.after index first).after index second`. -/
theorem after_append (s : Machine) (index : Nat) (first second : List Call) :
    s.after index (first ++ second) = (s.after index first).after index second := by
  simp [after]

/-- A machine that is stopped stays as it is: `s.cycle program = s`. -/
@[simp] theorem cycle_of_stopped (program : Program) {s : Machine} (h : s.running = false) :
    s.cycle program = s := by
  simp [cycle, h]

/-- A wave has a level for each cycle: `(wave program count s).length = count`. -/
@[simp] theorem length_wave (program : Program) (count : Nat) (s : Machine) :
    (wave program count s).length = count := by
  induction count generalizing s with
  | zero => rfl
  | succ count ih => simp [wave, ih]

end Machine

end Tachometer.Wave
