/-! # Programs of the wave generators

Each output's wave is made by a small state machine with two scratch registers and two shift
registers. All machines run one program, a row of 16-bit words.

* `Instruction.encode` — the word of an instruction.
* `Program.squareWave` — the program: it counts down from the period, with the pin low until as
  many counts are left as the high time has, and high from there on. -/

namespace Tachometer.Wave

/-- The registers of a state machine. -/
inductive Register where
  /-- The first scratch register. -/
  | x
  /-- The second scratch register. -/
  | y
  /-- The input shift register. -/
  | inputShift
  /-- The output shift register. -/
  | outputShift
  deriving DecidableEq, Repr

/-- When a jump is taken. -/
inductive Condition where
  /-- In any case. -/
  | always
  /-- The second scratch register was not zero; in any case it is counted down. -/
  | countDownY
  /-- The scratch registers differ. -/
  | xDiffersY
  deriving DecidableEq, Repr

/-- What an instruction does. -/
inductive Operation where
  /-- Goes on at another instruction. -/
  | jump (condition : Condition) (target : Nat)
  /-- Takes the next queued word into the output shift register, or the first scratch register
  when none is queued. -/
  | pull
  /-- Copies a register. -/
  | move (destination source : Register)
  /-- Shifts all 32 bits of the output shift register into the input shift register. -/
  | shift
  deriving DecidableEq, Repr

/-- An instruction: an operation, and the level that the pin takes with it, if it does. -/
structure Instruction where
  /-- What it does. -/
  operation : Operation
  /-- The level of the pin from this instruction on. -/
  side : Option Bool := none
  deriving DecidableEq, Repr

/-! ## Words -/

/-- The number of a register. -/
def Register.code : Register → UInt16
  | .x => 1
  | .y => 2
  | .inputShift => 6
  | .outputShift => 7

/-- The number of a condition. -/
def Condition.code : Condition → UInt16
  | .always => 0
  | .countDownY => 4
  | .xDiffersY => 5

/-- The word of an operation that leaves the pin alone. -/
def Operation.encode : Operation → UInt16
  | .jump condition target => condition.code <<< 5 ||| target.toUInt16 % 32
  | .pull => 0x8080
  | .move destination source => (0xA000 : UInt16) ||| destination.code <<< 5 ||| source.code
  | .shift => (0x6000 : UInt16) ||| Register.inputShift.code <<< 5

/-- The bits that set the pin: the upper says that it is set, the lower to what. -/
def sideCode : Option Bool → UInt16
  | none => 0
  | some level => (0x1000 : UInt16) ||| level.toUInt16 <<< 11

/-- The word of an instruction, as the assembler of the state machines puts it together: the
operation in the upper three bits, then two bits for the pin and three for a delay, which no
instruction here has, and the arguments of the operation in the lower eight. -/
def Instruction.encode (i : Instruction) : UInt16 := i.operation.encode ||| sideCode i.side

/-! ## The program -/

/-- A program and how it is to be loaded. -/
structure Program where
  /-- Its instructions, in order. -/
  instructions : List Instruction
  /-- The instruction after which the program starts over. -/
  wrapSource : Nat
  /-- The instruction with which it starts over. -/
  wrapTarget : Nat
  /-- The place it has to be loaded at, if that matters. -/
  origin : Option Nat
  /-- The bits of a word that are for the pin, the enabling one included. -/
  sideBits : Nat
  /-- Whether an instruction may leave the pin alone. -/
  sideOptional : Bool
  /-- Whether instructions set the direction of the pin rather than its level. -/
  sideDirections : Bool
  deriving DecidableEq, Repr

/-- The words of a program. -/
def Program.words (p : Program) : List UInt16 := p.instructions.map Instruction.encode

/-- The program of the square wave. A high time is taken from the queue at the start of each
period and kept while none is queued; the period is in the input shift register.

Its instructions, its wrap and its use of the pin are what its source text says. It is assumed of
the assembler that it keeps their order, counts the targets of jumps from the first of them, and
encodes each as `Instruction.encode` does. -/
def Program.squareWave : Program where
  instructions :=
    [{ operation := .pull, side := some false },
     { operation := .move .x .outputShift },
     { operation := .move .y .inputShift },
     { operation := .jump .xDiffersY 5 },
     { operation := .jump .always 6, side := some true },
     { operation := .move .y .y },
     { operation := .jump .countDownY 3 }]
  wrapSource := 6
  wrapTarget := 0
  origin := none
  sideBits := 2
  sideOptional := true
  sideDirections := false

/-- The words that are loaded, in the order of the program. -/
theorem words_squareWave :
    Program.squareWave.words = [36992, 40999, 41030, 165, 6150, 41026, 131] := by decide

end Tachometer.Wave
