import Mathlib.Data.List.Destutter
import Tachometer.Proofs.Relay.Targets
import Tachometer.Relay.Station

/-! # What the outputs are sent

An output is sent a frequency only when its target changes. So what it was sent, from being
switched off at the start on, is what was wanted for it, made usable and without repetitions.

* `sentTo` — what a row of commands gives to an output.
* `Targets.Usable` — every target is one that an output can be given.
* `Targets.set_eq` — what comes of one change.
* `Targets.cons_sentTo_setAll` — what several changes send to an output that has a target already.
* `Targets.Forwards`, `Targets.forwards_changes` — targets and commands after any changes.
* `Station.exists_changes` — what a station sends in a run comes of a row of changes. -/

namespace Tachometer

/-! ## Usable frequencies -/

/-- Zero is given as it is: `usable 0 = 0`. -/
@[simp] theorem usable_zero : usable 0 = 0 := by
  simp [usable]

/-- What is usable is given as it is: `usable (usable frequency) = usable frequency`. -/
@[simp] theorem usable_usable (frequency : Binary64) :
    usable (usable frequency) = usable frequency := by
  obtain ⟨h, -⟩ | ⟨h, -⟩ := usable_eq frequency
  · rw [h, h]
  · rw [h, usable_zero]

/-- What an output is given is not below zero: `0 ≤ usable frequency`. -/
theorem usable_nonneg (frequency : Binary64) : 0 ≤ usable frequency := by
  obtain ⟨h, -, hpos⟩ | ⟨h, -⟩ := usable_eq frequency
  · rw [h]
    exact Binary.le_of_lt hpos
  · rw [h]
    exact Binary.le_refl_of_ne_nan Binary.zero_ne_nan

/-- Frequencies that outputs are given have the same value only if they are the same:
`(usable x).sameValue (usable y) = true ↔ usable x = usable y`. -/
theorem sameValue_usable_iff (x y : Binary64) :
    (usable x).sameValue (usable y) = true ↔ usable x = usable y := by
  constructor
  · intro h
    exact Binary.eq_of_sameValue h ((negative_usable x).trans (negative_usable y).symm)
  · intro h
    rw [h]
    exact Binary.sameValue_self (Binary.ne_nan_of_isFinite (isFinite_usable y))

/-! ## Commands to one output -/

/-- The frequencies that a row of commands gives to an output, in order. -/
def sentTo (output : Nat) (commands : List Command) : List Binary64 :=
  commands.filterMap fun command =>
    if command.channel = output then some command.frequency else none

/-- No commands send nothing: `sentTo output [] = []`. -/
@[simp] theorem sentTo_nil (output : Nat) : sentTo output [] = [] := rfl

/-- Commands are sent in order:
`sentTo output (first ++ second) = sentTo output first ++ sentTo output second`. -/
theorem sentTo_append (output : Nat) (first second : List Command) :
    sentTo output (first ++ second) = sentTo output first ++ sentTo output second :=
  List.filterMap_append

/-- One command sends its frequency to its own output and nothing to the others:
`sentTo output [command] = if command.channel = output then [command.frequency] else []`. -/
theorem sentTo_singleton (output : Nat) (command : Command) :
    sentTo output [command] = if command.channel = output then [command.frequency] else [] := by
  by_cases h : command.channel = output <;> simp [sentTo, h]

/-- A command sends its frequency to its output:
`command.frequency ∈ sentTo command.channel commands`. -/
theorem frequency_mem_sentTo {command : Command} {commands : List Command}
    (h : command ∈ commands) : command.frequency ∈ sentTo command.channel commands :=
  List.mem_filterMap.mpr ⟨command, h, if_pos rfl⟩

/-- Every output is switched off once. -/
theorem sentTo_offCommands (m output : Nat) :
    sentTo output (Targets.offCommands m) = if output < m then [0] else [] := by
  induction m with
  | zero => rfl
  | succ m ih =>
    -- the new output comes last, and no earlier command is for it
    have hlast : Targets.offCommands (m + 1) = Targets.offCommands m ++ [⟨m, 0⟩] := by
      rw [Targets.offCommands, List.range_succ, List.map_append]
      rfl
    rw [hlast, sentTo_append, sentTo_singleton, ih]
    rcases Nat.lt_trichotomy output m with h | h | h
    · simp [h, h.ne', Nat.lt_succ_of_lt h]
    · simp [h]
    · rw [if_neg h.not_gt, if_neg h.ne, if_neg (by omega)]
      rfl

namespace Targets

variable {m : Nat}

/-! ## One change -/

/-- Every target is a frequency that an output can be given. -/
def Usable (t : Targets m) : Prop :=
  ∀ output : Fin m, usable (t.frequencies.get output) = t.frequencies.get output

/-- Outputs that are off have usable targets: `(off : Targets m).Usable`. -/
theorem usable_off : (off : Targets m).Usable := by
  intro output
  rw [get_off, usable_zero]

/-- Usable targets have no minus: `t.Usable` gives `t.Unsigned`. -/
theorem Usable.unsigned {t : Targets m} (ht : t.Usable) : t.Unsigned := by
  intro output
  rw [← ht output]
  exact negative_usable _

/-- **One change.** The frequency is made usable. When it is the target already, nothing comes of
it; otherwise it becomes the target and is sent. -/
theorem set_eq {t : Targets m} (ht : t.Usable) (output : Fin m) (wanted : Binary64) :
    t.set output wanted =
      if t.frequencies.get output = usable wanted then ⟨t, none, [], []⟩
      else ⟨⟨t.frequencies.set output (usable wanted) output.isLt⟩, none,
        [⟨output, usable wanted⟩], [.outputChanged output (usable wanted)]⟩ := by
  -- the test is for the same value, which among usable frequencies is the same frequency
  have hsame : t.frequencies[output.val].sameValue (usable wanted) = true ↔
      t.frequencies.get output = usable wanted := by
    have h := sameValue_usable_iff (t.frequencies.get output) wanted
    rwa [ht output] at h
  simp only [set, output.isLt, ↓reduceDIte, hsame]

/-- A change leaves the targets usable, whatever is wanted:
`(t.set channel wanted).targets.Usable`. -/
theorem Usable.set {t : Targets m} (ht : t.Usable) (channel : Nat) (wanted : Binary64) :
    (t.set channel wanted).targets.Usable := by
  intro output
  rw [frequencies_set ht.unsigned]
  split
  · exact usable_usable wanted
  · exact ht output

/-- What a change sends to an output: the new target, if the change is one of this output and
changes it. -/
theorem sentTo_set {t : Targets m} (ht : t.Usable) (channel : Nat) (wanted : Binary64)
    (output : Fin m) :
    sentTo output (t.set channel wanted).commands =
      if channel = output.val ∧ t.frequencies.get output ≠ usable wanted then [usable wanted]
      else [] := by
  by_cases h : channel < m
  · have hset : t.set channel wanted = _ := set_eq ht ⟨channel, h⟩ wanted
    by_cases hout : channel = output.val
    · obtain rfl : output = ⟨channel, h⟩ := Fin.ext hout.symm
      rw [hset]
      by_cases hsame : t.frequencies.get ⟨channel, h⟩ = usable wanted <;>
        simp [hsame, sentTo_singleton]
    · rw [if_neg fun hboth => hout hboth.1, hset]
      by_cases hsame : t.frequencies.get ⟨channel, h⟩ = usable wanted <;>
        simp [hsame, sentTo_singleton, hout]
  · -- a refused change is not one of an output that exists
    have hout : channel ≠ output.val := fun heq => h (heq ▸ output.isLt)
    rw [set_of_le (Nat.not_lt.mp h), if_neg fun hboth => hout hboth.1]
    rfl

/-- A change that leaves the targets as they are sends nothing:
`(t.set channel wanted).commands = []`. -/
theorem commands_set_of_targets_eq {t : Targets m} (ht : t.Usable) {channel : Nat}
    {wanted : Binary64} (h : (t.set channel wanted).targets = t) :
    (t.set channel wanted).commands = [] := by
  by_cases hlt : channel < m
  · have hset : t.set channel wanted = _ := set_eq ht ⟨channel, hlt⟩ wanted
    have hget := frequencies_set ht.unsigned channel wanted ⟨channel, hlt⟩
    rw [h, if_pos rfl] at hget
    rw [hset, if_pos hget]
  · rw [set_of_le (Nat.not_lt.mp hlt)]

/-- Only outputs that exist are sent something: `command.channel < m`. -/
theorem channel_lt_of_mem_set {t : Targets m} {channel : Nat} {wanted : Binary64}
    {command : Command} (h : command ∈ (t.set channel wanted).commands) : command.channel < m := by
  by_cases hlt : channel < m
  · simp only [set, hlt, ↓reduceDIte] at h
    split at h
    · exact absurd h (by simp)
    · rw [List.mem_singleton.mp h]
      exact hlt
  · rw [set_of_le (Nat.not_lt.mp hlt)] at h
    exact absurd h (by simp)

/-! ## Several changes -/

/-- Changes are made in order, and what they send is sent in order. -/
theorem setAll_append (t : Targets m) (first second : List (Nat × Binary64)) :
    (t.setAll (first ++ second)).targets = ((t.setAll first).targets.setAll second).targets ∧
      (t.setAll (first ++ second)).commands =
        (t.setAll first).commands ++ ((t.setAll first).targets.setAll second).commands := by
  induction first generalizing t with
  | nil => exact ⟨rfl, rfl⟩
  | cons change rest ih =>
    obtain ⟨channel, wanted⟩ := change
    obtain ⟨htargets, hcommands⟩ := ih (t.set channel wanted).targets
    simp only [List.cons_append, setAll]
    exact ⟨htargets, by rw [hcommands, List.append_assoc]⟩

/-- Any changes leave the targets usable: `(t.setAll changes).targets.Usable`. -/
theorem Usable.setAll {t : Targets m} (ht : t.Usable) (changes : List (Nat × Binary64)) :
    (t.setAll changes).targets.Usable := by
  induction changes generalizing t with
  | nil => exact ht
  | cons change rest ih => exact ih (ht.set change.1 change.2)

/-- Commands are for outputs that exist: `command.channel < m`. -/
theorem channel_lt_of_mem_setAll {t : Targets m} {changes : List (Nat × Binary64)}
    {command : Command} (h : command ∈ (t.setAll changes).commands) : command.channel < m := by
  induction changes generalizing t with
  | nil => exact absurd h (by simp)
  | cons change rest ih =>
    rcases List.mem_append.mp h with h | h
    · exact channel_lt_of_mem_set h
    · exact ih h

/-- **Several changes.** The target that an output has, followed by what it is sent, is the target
followed by what is wanted, without repetitions. -/
theorem cons_sentTo_setAll {t : Targets m} (ht : t.Usable) (changes : List (Nat × Binary64))
    (output : Fin m) :
    t.frequencies.get output :: sentTo output (t.setAll changes).commands =
      ((wantedFor changes output).map usable).destutter' (· ≠ ·) (t.frequencies.get output) := by
  induction changes generalizing t with
  | nil => rfl
  | cons change rest ih =>
    obtain ⟨channel, wanted⟩ := change
    have ih := ih (ht.set channel wanted)
    rw [frequencies_set ht.unsigned] at ih
    rw [wantedFor_cons, setAll, sentTo_append, sentTo_set ht]
    by_cases hout : channel = output.val
    · rw [if_pos hout] at ih
      rw [if_pos hout, List.map_cons]
      by_cases hsame : t.frequencies.get output = usable wanted
      · -- the frequency is the target already, so nothing is sent and the repetition is left out
        rw [if_neg fun hboth => hboth.2 hsame, List.destutter'_cons_neg _ (not_not.mpr hsame),
          hsame, ← ih]
        rfl
      · rw [if_pos ⟨hout, hsame⟩, List.destutter'_cons_pos _ hsame, ← ih]
        rfl
    · rw [if_neg hout] at ih
      rw [if_neg hout, if_neg fun hboth => hout hboth.1]
      exact ih

/-- An output's target is the one it had, or what it was sent last. -/
theorem getLast?_cons_sentTo_setAll {t : Targets m} (ht : t.Usable)
    (changes : List (Nat × Binary64)) (output : Fin m) :
    (t.frequencies.get output :: sentTo output (t.setAll changes).commands).getLast? =
      some ((t.setAll changes).targets.frequencies.get output) := by
  induction changes generalizing t with
  | nil => rfl
  | cons change rest ih =>
    obtain ⟨channel, wanted⟩ := change
    have ih := ih (ht.set channel wanted)
    rw [frequencies_set ht.unsigned] at ih
    rw [setAll, sentTo_append, sentTo_set ht]
    by_cases hnew : channel = output.val ∧ t.frequencies.get output ≠ usable wanted
    · -- the new target is sent, and the rest goes on from it
      rw [if_pos hnew.1] at ih
      rw [if_pos hnew, List.singleton_append, List.getLast?_cons_cons]
      exact ih
    · -- nothing is sent, because the output keeps its target
      have hkept : (if channel = output.val then usable wanted else t.frequencies.get output) =
          t.frequencies.get output := by
        split
        case isTrue hout => exact (not_not.mp fun hne => hnew ⟨hout, hne⟩).symm
        case isFalse => rfl
      rw [hkept] at ih
      rw [if_neg hnew]
      exact ih

/-- What several changes do to an output depends on its target and on what is wanted for it. -/
theorem setAll_congr {t t' : Targets m} (ht : t.Usable) (ht' : t'.Usable) {output : Fin m}
    (htarget : t.frequencies.get output = t'.frequencies.get output)
    {changes changes' : List (Nat × Binary64)}
    (hwanted : wantedFor changes output = wantedFor changes' output) :
    sentTo output (t.setAll changes).commands = sentTo output (t'.setAll changes').commands ∧
      (t.setAll changes).targets.frequencies.get output =
        (t'.setAll changes').targets.frequencies.get output := by
  -- with its target in front, what an output is sent depends on the target and what is wanted
  have hsent : t.frequencies.get output :: sentTo output (t.setAll changes).commands =
      t'.frequencies.get output :: sentTo output (t'.setAll changes').commands := by
    rw [cons_sentTo_setAll ht, cons_sentTo_setAll ht', htarget, hwanted]
  refine ⟨List.tail_eq_of_cons_eq hsent, Option.some.inj ?_⟩
  rw [← getLast?_cons_sentTo_setAll ht, ← getLast?_cons_sentTo_setAll ht', hsent]

/-- **The history of an output.** It is the row of the frequencies that were wanted for it, after
being switched off, made usable and without repetitions. -/
theorem sentTo_history (changes : List (Nat × Binary64)) (output : Fin m) :
    sentTo output (offCommands m ++ ((off : Targets m).setAll changes).commands) =
      (0 :: (wantedFor changes output).map usable).destutter (· ≠ ·) := by
  have h := cons_sentTo_setAll usable_off changes output
  rw [get_off] at h
  rw [sentTo_append, sentTo_offCommands, if_pos output.isLt, List.singleton_append, h,
    List.destutter_cons']

/-! ## Targets and commands -/

/-- How targets that were all off stand after a row of changes, and what the outputs were sent,
being switched off at the start included. -/
structure Forwards (m : Nat) (changes : List (Nat × Binary64)) : Prop where
  /-- The next change is made exactly when its output exists. -/
  fault_set : ∀ channel wanted,
    (((off : Targets m).setAll changes).targets.set channel wanted).fault =
      if channel < m then none else some (.outputChannelOutOfRange channel)
  /-- A change of an output that does not exist changes no target and sends nothing. -/
  set_refused : ∀ channel wanted, m ≤ channel →
    (((off : Targets m).setAll changes).targets.set channel wanted).targets =
        ((off : Targets m).setAll changes).targets ∧
      (((off : Targets m).setAll changes).targets.set channel wanted).commands = []
  /-- A change that is made sets its target to what is wanted, sanitized. -/
  set_made : ∀ channel wanted, channel < m → ∃ given,
    (((off : Targets m).setAll changes).targets.set channel wanted).targets.frequency? channel =
        some given ∧ Sanitizes wanted given
  /-- An output was switched off and then sent what was wanted for it, made usable, but nothing
  that it was sent just before. -/
  sentTo_eq : ∀ output : Fin m,
    sentTo output (offCommands m ++ ((off : Targets m).setAll changes).commands) =
      (0 :: (wantedFor changes output).map usable).destutter (· ≠ ·)
  /-- Its target is what it was sent last. -/
  frequency?_eq : ∀ output : Fin m,
    ((off : Targets m).setAll changes).targets.frequency? output =
      (sentTo output (offCommands m ++ ((off : Targets m).setAll changes).commands)).getLast?
  /-- Every target is finite and not below zero, and a zero is the positive one. -/
  target_usable : ∀ output frequency,
    ((off : Targets m).setAll changes).targets.frequency? output = some frequency →
      frequency.isFinite = true ∧ 0 ≤ frequency ∧ frequency.negative = false
  /-- So is everything that was sent, and it was sent to outputs that exist. -/
  sent_usable : ∀ command ∈ offCommands m ++ ((off : Targets m).setAll changes).commands,
    command.channel < m ∧ command.frequency.isFinite = true ∧ 0 ≤ command.frequency ∧
      command.frequency.negative = false

/-- A frequency that outputs can be given is finite and not below zero. -/
theorem sound_of_usable {frequency : Binary64} (h : usable frequency = frequency) :
    frequency.isFinite = true ∧ 0 ≤ frequency ∧ frequency.negative = false := by
  rw [← h]
  exact ⟨isFinite_usable _, usable_nonneg _, negative_usable _⟩

/-- Everything in the history of an output is a frequency that it can be given. -/
theorem usable_of_mem_history {changes : List (Nat × Binary64)} {frequency : Binary64}
    (output : Fin m)
    (h : frequency ∈ sentTo output (offCommands m ++ ((off : Targets m).setAll changes).commands)) :
    usable frequency = frequency := by
  rw [sentTo_history] at h
  rcases List.mem_cons.mp ((List.destutter_sublist _ _).mem h) with rfl | h
  · exact usable_zero
  · obtain ⟨wanted, -, rfl⟩ := List.mem_map.mp h
    exact usable_usable wanted

/-- **Only changes are sent.** Whatever changes are asked for, in any order, every output is sent
what is wanted for it without repetitions, and has the last of it as its target. -/
theorem forwards_changes (m : Nat) (changes : List (Nat × Binary64)) : Forwards m changes := by
  constructor
  case fault_set =>
    intro channel wanted
    split
    case isTrue h => exact fault_set_of_lt h wanted
    case isFalse h => rw [set_of_le (Nat.not_lt.mp h)]
  case set_refused =>
    intro channel wanted h
    rw [set_of_le h]
    exact ⟨rfl, rfl⟩
  case set_made =>
    intro channel wanted hlt
    have hset := frequencies_set (unsigned_off.setAll changes) channel wanted ⟨channel, hlt⟩
    rw [if_pos rfl] at hset
    exact ⟨_, Vector.getElem?_eq_getElem hlt, sanitizes_iff.mpr hset⟩
  case sentTo_eq => exact sentTo_history changes
  case frequency?_eq =>
    intro output
    have hlast := getLast?_cons_sentTo_setAll usable_off changes output
    rw [get_off] at hlast
    rw [sentTo_append, sentTo_offCommands, if_pos output.isLt, List.singleton_append, hlast]
    exact Vector.getElem?_eq_getElem output.isLt
  case target_usable =>
    intro output frequency h
    obtain ⟨hlt, rfl⟩ := Vector.getElem?_eq_some_iff.mp h
    exact sound_of_usable (usable_off.setAll changes ⟨output, hlt⟩)
  case sent_usable =>
    intro command h
    have hlt : command.channel < m := by
      rcases List.mem_append.mp h with h | h
      · obtain ⟨channel, hmem, rfl⟩ := List.mem_map.mp h
        exact List.mem_range.mp hmem
      · exact channel_lt_of_mem_setAll h
    exact ⟨hlt, sound_of_usable
      (usable_of_mem_history ⟨command.channel, hlt⟩ (frequency_mem_sentTo h))⟩

end Targets

/-! ## Runs of a station -/

namespace Station

variable {n m : Nat}

/-- What an event does to the targets of a station and sends to the generator comes of a row of
changes. -/
theorem exists_changes_respond (s : Station n m) (event : Event n) :
    ∃ changes, (s.respond event).station.targets = (s.targets.setAll changes).targets ∧
      (s.respond event).commands = (s.targets.setAll changes).commands := by
  cases event with
  | configure pins => exact ⟨[], rfl, rfl⟩
  | edge pin => exact ⟨[], rfl, rfl⟩
  | tick now =>
    show ∃ changes, (s.tick now).station.targets = _ ∧ (s.tick now).commands = _
    rw [tick]
    split
    · exact ⟨_, rfl, rfl⟩
    · exact ⟨[], rfl, rfl⟩
  | set channel wanted => exact ⟨[(channel, wanted)], rfl, (List.append_nil _).symm⟩

/-- So does a run. -/
theorem exists_changes (s : Station n m) (events : List (Event n)) :
    ∃ changes, (s.after events).targets = (s.targets.setAll changes).targets ∧
      s.commands events = (s.targets.setAll changes).commands := by
  induction events generalizing s with
  | nil => exact ⟨[], rfl, rfl⟩
  | cons event events ih =>
    obtain ⟨first, hfirst, hsent⟩ := s.exists_changes_respond event
    obtain ⟨rest, hrest, hcommands⟩ := ih (s.respond event).station
    refine ⟨first ++ rest, ?_, ?_⟩
    · rw [after_cons, hrest, hfirst, (Targets.setAll_append ..).1]
    · rw [commands_cons, hcommands, hfirst, hsent, (Targets.setAll_append ..).2]

/-- Any run leaves the targets usable: `(s.after events).targets.Usable`. -/
theorem usable_after {s : Station n m} (ht : s.targets.Usable) (events : List (Event n)) :
    (s.after events).targets.Usable := by
  obtain ⟨changes, htargets, -⟩ := s.exists_changes events
  rw [htargets]
  exact ht.setAll changes

/-- **Targets of a run.** An output's target is the one it had, or what it was sent last. -/
theorem getLast?_cons_sentTo_commands {s : Station n m} (ht : s.targets.Usable)
    (events : List (Event n)) (output : Fin m) :
    (s.targets.frequencies.get output :: sentTo output (s.commands events)).getLast? =
      some ((s.after events).targets.frequencies.get output) := by
  obtain ⟨changes, htargets, hcommands⟩ := s.exists_changes events
  rw [htargets, hcommands]
  exact Targets.getLast?_cons_sentTo_setAll ht changes output

end Station

end Tachometer
