import Tachometer.Proofs.Relay.History
import Tachometer.Wave.Bank
import Tachometer.Wave.Machine

/-! # What a frequency makes of a machine

The calls for a frequency stop the machine first, so what they make of it depends neither on what
it was doing nor on what was waiting in its queue.

* `Machine.playing`, `Machine.silenced` — a machine that was given a frequency, or none.
* `Machine.foldl_obey_generate` — the calls for a frequency lead to one of these.
* `filterMap_to?_flatMap_perform` — what a row of commands asks of one machine. -/

namespace Tachometer.Wave

/-! ## Periods -/

/-- A period is the quotient of counts a second and frequency, cut off to 32 bits. -/
theorem toNat_period (clock : Nat) (frequency : Binary64) :
    (period clock frequency).toNat =
      (.ofNat clock / .ofNat cyclesPerCount / frequency : Binary64).truncate 4294967295 := by
  have hle := Binary.truncate_le 4294967295
    (.ofNat clock / .ofNat cyclesPerCount / frequency : Binary64)
  rw [period, UInt32.toNat_ofNat_of_lt']
  exact Nat.lt_succ_of_le hle

namespace Machine

/-! ## One frequency -/

/-- A machine that was given a frequency: the period is in its input shift register, and the high
time waits in its queue. -/
def playing (s : Machine) (counts : UInt32) : Machine :=
  { s with running := true, queue := [counts / 2], inputShift := counts, outputShift := 0 }

/-- A machine that was given no frequency: it is stopped with its pin low and nothing queued. -/
def silenced (s : Machine) : Machine := { s with running := false, queue := [], pin := .low }

/-- A machine that was given a frequency, which may be too low to be generated. -/
def generating (s : Machine) (clock : Nat) (frequency : Binary64) : Machine :=
  if lowestFrequency ≤ frequency then s.playing (period clock frequency) else s.silenced

/-- **One frequency.** The calls for a frequency lead any machine to the same place. -/
theorem foldl_obey_generate (s : Machine) (clock pin : Nat) (frequency : Binary64) :
    (generate clock pin frequency).foldl obey s = s.generating clock frequency := by
  unfold generate generating
  by_cases h : lowestFrequency ≤ frequency
  · rw [if_pos h, if_pos h]
    rfl
  · rw [if_neg h, if_neg h]
    rfl

/-- A machine runs exactly when the frequency can be generated. -/
theorem running_generating (s : Machine) (clock : Nat) (frequency : Binary64) :
    (s.generating clock frequency).running = true ↔ lowestFrequency ≤ frequency := by
  unfold generating
  by_cases h : lowestFrequency ≤ frequency
  · simp [h, playing]
  · simp [h, silenced]

end Machine

/-! ## Commands -/

/-- A command to an output that exists asks its machine for the frequency. -/
theorem perform_of_lt (bank : Bank) {command : Command} (h : command.channel < 4) :
    bank.perform command =
      (generate bank.clock bank.pins[command.channel] command.frequency).map
        (.machine command.channel) := by
  rw [Bank.perform, Bank.setFrequency, dif_pos h]

/-- A command for an output without a machine makes no call to one:
`bank.perform command = [.missing command.channel]`. -/
theorem perform_of_le (bank : Bank) {command : Command} (h : 4 ≤ command.channel) :
    bank.perform command = [.missing command.channel] :=
  Bank.setFrequency_of_le h command.frequency

/-- Calls to one machine are all for that machine. -/
theorem filterMap_to?_map (index other : Nat) (calls : List MachineCall) :
    (calls.map (Call.machine other)).filterMap (Call.to? index) =
      if other = index then calls else [] := by
  rw [List.filterMap_map]
  by_cases h : other = index
  · rw [if_pos h]
    simp [Call.to?, h]
  · simp [Call.to?, h]

/-- What a command asks of a machine. -/
theorem filterMap_to?_perform (bank : Bank) (command : Command) {index : Nat} (h : index < 4) :
    (bank.perform command).filterMap (Call.to? index) =
      if command.channel = index then generate bank.clock bank.pins[index] command.frequency
      else [] := by
  by_cases hlt : command.channel < 4
  · rw [perform_of_lt bank hlt, filterMap_to?_map]
    by_cases hindex : command.channel = index
    · subst hindex
      rfl
    · rw [if_neg hindex, if_neg hindex]
  · -- an output without a machine is none of the machines
    have hne : command.channel ≠ index := by omega
    rw [perform_of_le bank (Nat.not_lt.mp hlt), if_neg hne]
    rfl

/-- **Several commands.** They ask a machine for the frequencies that are sent to its output, one
after the other. -/
theorem filterMap_to?_flatMap_perform (bank : Bank) (commands : List Command) {index : Nat}
    (h : index < 4) :
    (commands.flatMap bank.perform).filterMap (Call.to? index) =
      (sentTo index commands).flatMap (generate bank.clock bank.pins[index]) := by
  induction commands with
  | nil => rfl
  | cons command commands ih =>
    rw [List.flatMap_cons, List.filterMap_append, ih, filterMap_to?_perform bank command h,
      ← List.singleton_append, sentTo_append, sentTo_singleton, List.flatMap_append]
    by_cases hindex : command.channel = index
    · rw [if_pos hindex, if_pos hindex, List.flatMap_singleton]
    · rw [if_neg hindex, if_neg hindex]
      rfl

end Tachometer.Wave
