import Tachometer.Proofs.Relay.Links
import Tachometer.Relay.Station

/-! # What a station reports

Once its links are checked, a station has nothing to complain of in any round. It reports what it
has measured and what it sends to the generator.

* `Targets.notices_setAll`, `Targets.channels_setAll` — several changes report what they send, and
  send it in their order.
* `Station.Reports`, `Station.reports_tick` — what a round reports.
* `Station.checked_and_reported` — the check of the links, and a round after any run. -/

namespace Tachometer

/-! ## Changes of targets -/

/-- The report on a command. -/
def Command.notice (command : Command) : Notice :=
  .outputChanged command.channel command.frequency

namespace Targets

variable {m : Nat}

/-- A change reports what it sends, and sends it to its own output if at all. -/
theorem commands_set (t : Targets m) (channel : Nat) (wanted : Binary64) :
    (t.set channel wanted).notices = (t.set channel wanted).commands.map Command.notice ∧
      ((t.set channel wanted).commands.map Command.channel).Sublist [channel] := by
  unfold set
  split
  case isFalse => simp
  case isTrue =>
    dsimp only
    split
    · simp
    · simp [Command.notice]

/-- Changes of outputs that exist report what they send, and nothing else. -/
theorem notices_setAll {changes : List (Nat × Binary64)} (h : ∀ change ∈ changes, change.1 < m)
    (t : Targets m) :
    (t.setAll changes).notices = (t.setAll changes).commands.map Command.notice := by
  induction changes generalizing t with
  | nil => rfl
  | cons change rest ih =>
    have hfault := fault_set_of_lt (t := t) (h change List.mem_cons_self) change.2
    have hset := (commands_set t change.1 change.2).1
    have hrest := ih (fun change hmem => h change (List.mem_cons_of_mem _ hmem))
      (t.set change.1 change.2).targets
    simp only [setAll, hfault, refusal_none, List.append_nil, hset, hrest, List.map_append]

/-- Each of several changes sends one command at most, in their order. -/
theorem channels_setAll (t : Targets m) (changes : List (Nat × Binary64)) :
    ((t.setAll changes).commands.map Command.channel).Sublist (changes.map Prod.fst) := by
  -- a change that sends nothing drops out, and the others keep their order
  induction changes generalizing t with
  | nil => exact .slnil
  | cons change rest ih =>
    simp only [setAll, List.map_append, List.map_cons]
    exact (commands_set t change.1 change.2).2.append (ih _)

end Targets

/-! ## Rounds -/

namespace Station

variable {n m : Nat}

/-- Every output is wanted a frequency for once, in order:
`(wanted fed).map Prod.fst = List.range m`. -/
theorem map_fst_wanted (fed : Vector (Route × Binary64) m) :
    (wanted fed).map Prod.fst = List.range m := by
  unfold wanted
  refine List.ext_getElem (by simp) fun output hlt hlt' => ?_
  simp

/-- What is reported of a round, and what it sends. -/
structure Reports (s : Station n m) (now : Instant) : Prop where
  /-- No warning is given and no error. -/
  quiet : ∀ notice ∈ (s.tick now).notices, notice.level ≠ .warn ∧ notice.level ≠ .error
  /-- A round that closes no window reports nothing and sends nothing. -/
  rejected : (s.tick now).accepted = false →
    (s.tick now).notices = [] ∧ (s.tick now).commands = []
  /-- One that closes a window reports what was measured, and then everything that it sends. -/
  accepted : (s.tick now).accepted = true → ∃ window, s.sampler.window? now = some window ∧
    (s.tick now).notices =
      .sampleTaken window (s.tick now).station.sampler.frequencies.toList ::
        (s.tick now).commands.map Command.notice
  /-- The one is traced, the other is for debugging. -/
  levels_eq : (s.tick now).accepted = true →
    (s.tick now).notices.map Notice.level =
      .trace :: List.replicate (s.tick now).commands.length .debug
  /-- Commands go to outputs that exist. -/
  channel_lt : ∀ command ∈ (s.tick now).commands, command.channel < m
  /-- No output has two of them, and they come in the order of the outputs. -/
  ascending : (s.tick now).commands.Pairwise fun first second => first.channel < second.channel

/-- A round that serves the outputs reports what was measured and what is sent. -/
theorem notices_serve (s : Station n m) (reading : Sampler.Reading n) (now : Instant) :
    (s.serve reading now).notices =
      reading.notices ++ (s.serve reading now).commands.map Command.notice := by
  -- there is a route for each output and no more, so no change is refused
  refine congrArg (reading.notices ++ ·) (Targets.notices_setAll (fun change hmem => ?_) _)
  have hchannel := List.mem_map_of_mem (f := Prod.fst) hmem
  rw [map_fst_wanted] at hchannel
  exact List.mem_range.mp hchannel

/-- It sends one command at most to each output, in their order. -/
theorem channels_serve (s : Station n m) (reading : Sampler.Reading n) (now : Instant) :
    ((s.serve reading now).commands.map Command.channel).Sublist (List.range m) := by
  have h := s.targets.channels_setAll (wanted (s.routes.map (Route.feed reading.sampler now)))
  rwa [map_fst_wanted] at h

/-- Reports of commands are for debugging:
`(commands.map Command.notice).map Notice.level = List.replicate commands.length .debug`. -/
theorem map_level_commands (commands : List Command) :
    (commands.map Command.notice).map Notice.level = List.replicate commands.length .debug := by
  rw [List.map_map]
  exact List.map_const'

/-- **One round.** Whatever state a station is in, this is what it reports of a round. -/
theorem reports_tick (s : Station n m) (now : Instant) : Reports s now := by
  cases hwindow : s.sampler.window? now with
  | none =>
    have htick := tick_of_window?_eq_none hwindow
    constructor <;> simp [htick]
  | some window =>
    have htick := tick_of_window?_eq_some hwindow
    have hread := Sampler.update_of_window?_eq_some hwindow s.counters.counts
    have hchannels := s.channels_serve (s.sampler.update s.counters.counts now) now
    have hnotices : (s.tick now).notices =
        .sampleTaken window (s.tick now).station.sampler.frequencies.toList ::
          (s.tick now).commands.map Command.notice := by
      rw [htick, notices_serve, hread]
      rfl
    rw [← htick] at hchannels
    constructor
    case quiet =>
      rw [hnotices]
      intro notice hmem
      rcases List.mem_cons.mp hmem with rfl | hmem
      · exact ⟨by simp [Notice.level], by simp [Notice.level]⟩
      · obtain ⟨command, -, rfl⟩ := List.mem_map.mp hmem
        exact ⟨by simp [Command.notice, Notice.level], by simp [Command.notice, Notice.level]⟩
    case rejected =>
      rw [htick]
      exact fun h => absurd h (by simp [serve])
    case accepted => exact fun _ => ⟨window, hwindow, hnotices⟩
    case levels_eq =>
      intro _
      rw [hnotices, List.map_cons, map_level_commands]
      rfl
    case channel_lt =>
      intro command hmem
      exact List.mem_range.mp (hchannels.subset (List.mem_map_of_mem hmem))
    case ascending => exact List.pairwise_map.mp (List.pairwise_lt_range.sublist hchannels)

/-- **Checks and reports.** A table of links is checked when a station is set up. Whatever its
routes are, and whatever happened to it, no round of a station ever warns. -/
theorem checked_and_reported (links : Vector Link m) (created : Instant) (s : Station n m)
    (events : List (Event n)) (now : Instant) :
    Route.Checked n links created ∧ Reports (s.after events) now :=
  ⟨Route.checked n links created, reports_tick (s.after events) now⟩

end Station

end Tachometer
