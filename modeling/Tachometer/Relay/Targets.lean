import Tachometer.Notice

/-! # Output targets

Every output has a target frequency. A generator makes the wave; it is sent a command only when a
target changes, because a command restarts the wave.

* `usable` — the frequency that an output is given for a wanted one.
* `Targets.set` — changes one target.
* `Targets.setAll` — changes several, one after the other. -/

namespace Tachometer

/-- A command to the generator of the waves: from now on, this channel has this frequency. -/
structure Command where
  /-- The output channel. -/
  channel : Nat
  /-- Its new frequency in hertz. -/
  frequency : Binary64
  deriving DecidableEq, Repr

/-- The target frequencies, in hertz, of `m` outputs. -/
structure Targets (m : Nat) where
  /-- The target of each output. -/
  frequencies : Vector Binary64 m
  deriving DecidableEq, Repr

/-- The frequency that an output is given: what is not a positive finite number switches it
off. -/
def usable (frequency : Binary64) : Binary64 :=
  if frequency.isFinite ∧ 0 < frequency then frequency else 0

namespace Targets

variable {m : Nat}

/-- All outputs are off. -/
def off : Targets m := ⟨Vector.replicate m 0⟩

/-- The commands that switch all outputs off, in the order of the channels. -/
def offCommands (m : Nat) : List Command := (List.range m).map fun channel => ⟨channel, 0⟩

/-- The target of an output, if there is such an output. -/
def frequency? (t : Targets m) (channel : Nat) : Option Binary64 := t.frequencies[channel]?

/-! ## Changing a target -/

/-- What came of setting a target. -/
structure Change (m : Nat) where
  /-- The targets afterwards. -/
  targets : Targets m
  /-- Why it was refused, if it was. -/
  fault : Option Fault
  /-- What is sent to the generator. -/
  commands : List Command
  /-- What was reported. -/
  notices : List Notice

/-- Sets the target of an output. Nothing is sent when the target already has that value. -/
def set (t : Targets m) (channel : Nat) (wanted : Binary64) : Change m :=
  if h : channel < m then
    let frequency := usable wanted
    if t.frequencies[channel].sameValue frequency then ⟨t, none, [], []⟩
    else
      ⟨⟨t.frequencies.set channel frequency⟩, none, [⟨channel, frequency⟩],
        [.outputChanged channel frequency]⟩
  else ⟨t, some (.outputChannelOutOfRange channel), [], []⟩

/-! ## Changing several targets -/

/-- What came of setting several targets. -/
structure Round (m : Nat) where
  /-- The targets afterwards. -/
  targets : Targets m
  /-- What is sent to the generator, in order. -/
  commands : List Command
  /-- What was reported. -/
  notices : List Notice

/-- The report about a refused change. -/
def refusal (channel : Nat) : Option Fault → List Notice
  | none => []
  | some fault => [.outputNotUpdated channel fault]

/-- Sets the targets of several outputs, one after the other. A refused change is reported, and
the others are made. -/
def setAll (t : Targets m) : List (Nat × Binary64) → Round m
  | [] => ⟨t, [], []⟩
  | (channel, wanted) :: rest =>
    let change := t.set channel wanted
    let round := change.targets.setAll rest
    ⟨round.targets, change.commands ++ round.commands,
      change.notices ++ refusal channel change.fault ++ round.notices⟩

/-- A change that was made is not reported as refused: `refusal channel none = []`. -/
@[simp] theorem refusal_none (channel : Nat) : refusal channel none = [] := rfl

/-- No changes send and report nothing: `t.setAll [] = ⟨t, [], []⟩`. -/
@[simp] theorem setAll_nil (t : Targets m) : t.setAll [] = ⟨t, [], []⟩ := rfl

/-- A change of an output that does not exist is refused and does nothing else:
`t.set channel wanted = ⟨t, some (.outputChannelOutOfRange channel), [], []⟩`. -/
theorem set_of_le {t : Targets m} {channel : Nat} (h : m ≤ channel) (wanted : Binary64) :
    t.set channel wanted = ⟨t, some (.outputChannelOutOfRange channel), [], []⟩ := by
  simp [set, Nat.not_lt.mpr h]

/-- A change of an output that exists is not refused, whatever is wanted:
`(t.set channel wanted).fault = none`. -/
theorem fault_set_of_lt {t : Targets m} {channel : Nat} (h : channel < m) (wanted : Binary64) :
    (t.set channel wanted).fault = none := by
  simp only [set, h, ↓reduceDIte]
  split <;> rfl

end Targets

end Tachometer
