import Tachometer.Board.Wiring
import Tachometer.Proofs.Wave.Generate

/-! # The board's machines follow its targets

Every state machine of the board was asked, last of all, for the target of its output. So whatever
it was like before, it generates that target now.

* `Board.calls` — everything that is asked of the hardware in a run.
* `Board.Mirrors` — how the machines stand to the targets after a run.
* `Board.mirrors_after` — the board starts, and its machines stand so after every run. -/

namespace Tachometer.Board

open Wave

/-! ## Words -/

/-- The word that a call queues, if it queues one. -/
def queued? : MachineCall → Option UInt32
  | .push word => some word
  | _ => none

/-- The words that calls to the hardware have queued for a machine, oldest first. -/
def queuedFor (index : Nat) (calls : List Call) : List UInt32 :=
  (calls.filterMap (Call.to? index)).filterMap queued?

/-- The last word queued for a frequency is half of its period. -/
theorem getLast?_queued_generate {clock pin : Nat} {frequency : Binary64}
    (h : lowestFrequency ≤ frequency) :
    ((generate clock pin frequency).filterMap queued?).getLast? =
      some (period clock frequency / 2) := by
  rw [generate, if_pos h]
  rfl

/-! ## The start -/

/-- None of the board's links is to a fan that does not exist. -/
theorem find?_links : (links.toList.find? fun link => fanCount ≤ link.source) = none := by decide

/-- **The start.** The board is never refused, and it starts with all outputs off. -/
theorem exists_start (clock : Nat) (now : Instant) :
    ∃ s, (start clock now).result = .ok s ∧ s.targets = .off := by
  have hlinks : ∃ routes, (Route.ofLinks fanCount links now).result = .ok routes := by
    rw [Route.ofLinks, find?_links]
    exact ⟨_, rfl⟩
  obtain ⟨routes, hroutes⟩ := hlinks
  refine ⟨⟨(Counters.empty.configure inputPins).counters, .start now Sampler.usualLength, routes,
    .off⟩, ?_, rfl⟩
  rw [start, hroutes]
  rfl

/-- Everything that is asked of the hardware in a run, the start included. -/
def calls (clock : Nat) (now : Instant) (s : Station fanCount outputCount)
    (events : List (Event fanCount)) : List Call :=
  (start clock now).calls ++ perform clock (s.commands events)

/-! ## Runs -/

/-- How the state machines of the board stand to its targets after a run that began with a
station. It does not matter how a machine was before the start. -/
structure Mirrors (clock : Nat) (now : Instant) (s : Station fanCount outputCount)
    (events : List (Event fanCount)) : Prop where
  /-- A machine runs exactly when the target of its output is not too low to be generated. -/
  running_iff : ∀ (output : Fin outputCount) (machine : Machine),
    (machine.after output (calls clock now s events)).running = true ↔
      lowestFrequency ≤ (s.after events).targets.frequencies.get output
  /-- When it runs, the period of the target is in its input shift register. -/
  inputShift_eq : ∀ (output : Fin outputCount) (machine : Machine),
    (machine.after output (calls clock now s events)).running = true →
      (machine.after output (calls clock now s events)).inputShift.toNat =
        (.ofNat clock / .ofNat 3 / (s.after events).targets.frequencies.get output :
          Binary64).truncate 4294967295
  /-- Then the last word queued for it is half of that period. -/
  queued_eq : ∀ (output : Fin outputCount) (machine : Machine),
    (machine.after output (calls clock now s events)).running = true →
      (queuedFor output (calls clock now s events)).getLast? =
        some ((machine.after output (calls clock now s events)).inputShift / 2)
  /-- When it does not run, the last thing that was asked of it is to drive the pin of its output
  low, and nothing waits in its queue. -/
  stopped : ∀ (output : Fin outputCount) (machine : Machine),
    (machine.after output (calls clock now s events)).running = false →
      ((calls clock now s events).filterMap (Call.to? output)).getLast? =
          some (.setPins .low [outputPins.get output]) ∧
        (machine.after output (calls clock now s events)).pin = .low ∧
        (machine.after output (calls clock now s events)).queue = []
  /-- Nothing is asked of the hardware in a round that is rejected. -/
  rejected : ∀ time, ((s.after events).tick time).accepted = false →
    perform clock ((s.after events).tick time).commands = []
  /-- Nothing is asked of it when a target is set directly and the targets stay as they are. -/
  unchanged : ∀ channel wanted,
    ((s.after events).set channel wanted).station.targets = (s.after events).targets →
      perform clock ((s.after events).set channel wanted).commands = []

/-- **What was asked last.** After other calls the machine of an output was asked for its
target. -/
theorem exists_calls_eq {s : Station fanCount outputCount} (hs : s.targets = .off) (clock : Nat)
    (now : Instant) (events : List (Event fanCount)) (output : Fin outputCount) :
    ∃ earlier, (calls clock now s events).filterMap (Call.to? output) =
      earlier ++ generate clock (outputPins.get output)
        ((s.after events).targets.frequencies.get output) := by
  have husable : s.targets.Usable := hs ▸ Targets.usable_off
  have hcalls : calls clock now s events =
      (Targets.offCommands outputCount ++ s.commands events).flatMap (bank clock).perform :=
    List.flatMap_append.symm
  -- the row of what the output was sent, being switched off included, ends with its target
  have hlast := Station.getLast?_cons_sentTo_commands husable events output
  rw [hs, Targets.get_off] at hlast
  obtain ⟨before, hsent⟩ := List.getLast?_eq_some_iff.mp hlast
  refine ⟨before.flatMap (generate clock (outputPins.get output)), ?_⟩
  rw [hcalls, filterMap_to?_flatMap_perform (bank clock) _ output.isLt, sentTo_append,
    sentTo_offCommands, if_pos output.isLt, List.singleton_append, hsent, List.flatMap_append,
    List.flatMap_singleton]
  rfl

/-- So it generates the target. -/
theorem exists_after_calls_eq {s : Station fanCount outputCount} (hs : s.targets = .off)
    (clock : Nat) (now : Instant) (events : List (Event fanCount)) (output : Fin outputCount)
    (machine : Machine) :
    ∃ before : Machine, machine.after output (calls clock now s events) =
      before.generating clock ((s.after events).targets.frequencies.get output) := by
  obtain ⟨earlier, hearlier⟩ := exists_calls_eq hs clock now events output
  refine ⟨earlier.foldl Machine.obey machine, ?_⟩
  rw [Machine.after, hearlier, List.foldl_append, Machine.foldl_obey_generate]

/-- **Mirroring.** At every clock the board starts, and after every run each of its machines
generates the target of its output. -/
theorem mirrors_after (clock : Nat) (now : Instant) :
    ∃ s, (start clock now).result = .ok s ∧ ∀ events, Mirrors clock now s events := by
  obtain ⟨s, hstart, hs⟩ := exists_start clock now
  refine ⟨s, hstart, fun events => ?_⟩
  have hplays (output : Fin outputCount) (machine : Machine)
      (hrunning : (machine.after output (calls clock now s events)).running = true) :
      lowestFrequency ≤ (s.after events).targets.frequencies.get output ∧
        (machine.after output (calls clock now s events)).inputShift =
          period clock ((s.after events).targets.frequencies.get output) := by
    obtain ⟨before, hafter⟩ := exists_after_calls_eq hs clock now events output machine
    rw [hafter, Machine.running_generating] at hrunning
    rw [hafter, Machine.generating, if_pos hrunning]
    exact ⟨hrunning, rfl⟩
  constructor
  case running_iff =>
    intro output machine
    obtain ⟨before, hafter⟩ := exists_after_calls_eq hs clock now events output machine
    rw [hafter, Machine.running_generating]
  case inputShift_eq =>
    intro output machine hrunning
    rw [(hplays output machine hrunning).2]
    exact toNat_period ..
  case queued_eq =>
    intro output machine hrunning
    obtain ⟨htarget, hshift⟩ := hplays output machine hrunning
    obtain ⟨earlier, hearlier⟩ := exists_calls_eq hs clock now events output
    rw [queuedFor, hearlier, List.filterMap_append, List.getLast?_append,
      getLast?_queued_generate htarget, hshift]
    rfl
  case stopped =>
    intro output machine hstopped
    obtain ⟨before, hafter⟩ := exists_after_calls_eq hs clock now events output machine
    have htarget : ¬lowestFrequency ≤ (s.after events).targets.frequencies.get output := by
      rw [← Machine.running_generating before clock, ← hafter, hstopped]
      exact Bool.false_ne_true
    obtain ⟨earlier, hearlier⟩ := exists_calls_eq hs clock now events output
    rw [hearlier, hafter, Machine.generating, if_neg htarget, generate, if_neg htarget]
    exact ⟨by simp, rfl, rfl⟩
  case rejected =>
    intro time hrejected
    cases hwindow : (s.after events).sampler.window? time with
    | none =>
      rw [Station.tick_of_window?_eq_none hwindow]
      rfl
    | some window =>
      rw [Station.tick_of_window?_eq_some hwindow] at hrejected
      exact absurd hrejected (by simp [Station.serve])
  case unchanged =>
    intro channel wanted hsame
    have husable := Station.usable_after (hs ▸ Targets.usable_off) events
    have hnone := Targets.commands_set_of_targets_eq husable hsame
    rw [Station.set, hnone]
    rfl

end Tachometer.Board
