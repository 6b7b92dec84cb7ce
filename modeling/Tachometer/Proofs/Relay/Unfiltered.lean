import Tachometer.Proofs.Measure.Conservation
import Tachometer.Proofs.Measure.Measured
import Tachometer.Proofs.Relay.Envelope

/-! # Outputs that follow a fan without a filter

No measured frequency is one that an output would have to be spared, so without a filter an output
is given the frequency of its fan as it is, and is off only when the fan was measured standing
still.

* `usable_of_unsigned`, `Sampler.Measured.usable_narrow` — what an output is given as it is.
* `Station.narrowed`, `Station.course` — the frequency of a fan as it comes to an output, and what
  the sampler of a station has been through.
* `Station.Repeats` — what comes of an accepted round for an output without a filter.
* `Station.measured_and_repeated` — all that is measured is usable, and is what such outputs are
  given. -/

namespace Tachometer

/-! ## Frequencies that are given as they are -/

/-- A finite number that has no minus is usable as it is: `usable x = x`. -/
theorem usable_of_unsigned {x : Binary64} (hfin : x.isFinite = true) (hsign : x.negative = false) :
    usable x = x := by
  obtain ⟨h, -⟩ | ⟨h, hnot⟩ := usable_eq x
  · exact h
  · -- it is not positive, so it is zero, and of the two zeros the positive one
    have hzero : x.toRat ≤ 0 := by
      have hle := (Binary.not_lt Binary.zero_ne_nan (Binary.ne_nan_of_isFinite hfin)).mp
        fun hpos => hnot ⟨hfin, hpos⟩
      simpa using (Binary.le_iff_toRat hfin Binary.isFinite_zero).mp hle
    have hplace : x.position = some 0 := by
      rw [Binary.position_eq_place hfin,
        le_antisymm hzero (Binary.toRat_nonneg_of_negative hsign), Format.place_zero]
    rw [h, Binary.eq_signedZero hplace, hsign]
    rfl

namespace Sampler.Measured

variable {frequency : Binary64} {pulses? : Option UInt32}

/-- A measured frequency is usable after it was rounded to the smaller format. -/
theorem usable_narrow (h : Measured frequency pulses?) :
    usable (frequency.convert : Binary32).convert = (frequency.convert : Binary32).convert := by
  refine usable_of_unsigned (PeakHold.isFinite_wide h.isFinite_narrow) ?_
  rw [Binary.negative_convert h.isFinite_narrow, Binary.negative_convert h.isFinite, h.negative_eq]

/-- It is still zero only if it was. -/
theorem narrow_eq_zero_iff (h : Measured frequency pulses?) :
    ((frequency.convert : Binary32).convert : Binary64) = 0 ↔ frequency = 0 := by
  constructor
  · intro hzero
    have hnarrow : (frequency.convert : Binary32) = 0 := by
      rw [← PeakHold.narrow_wide (frequency.convert : Binary32), hzero, Binary.convert_zero]
    refine h.eq_zero_of_narrow ?_
    rw [hnarrow]
    exact Binary.sameValue_self Binary.zero_ne_nan
  · rintro rfl
    rw [Binary.convert_zero, Binary.convert_zero]

end Sampler.Measured

namespace Station

variable {n m : Nat}

/-! ## Rounds -/

/-- The frequency of a fan as it comes to an output, rounded once to the smaller format. A fan that
does not exist stands still. -/
def narrowed (s : Station n m) (source : Nat) : Binary64 :=
  (((s.sampler.frequency? source).getD 0).convert : Binary32).convert

/-- The course of the sampler of a station after a run of events. -/
def course (s : Station n m) (c : Sampler.Course n) (events : List (Event n)) : Sampler.Course n :=
  s.sampler.course c (s.meter.readings (measured events))

/-- What comes of a round for an output that follows a fan without a filter. -/
structure Repeats (s : Station n m) (now : Instant) (output : Fin m) (source : Nat)
    (pulses? : Fin n → Option UInt32) : Prop where
  /-- What is wanted for the output is the frequency of the fan. -/
  wanted_eq : ((s.routes.get output).feed (s.tick now).station.sampler now).2 =
    (s.tick now).station.narrowed source
  /-- It is usable as it is. -/
  usable_eq : usable ((s.tick now).station.narrowed source) = (s.tick now).station.narrowed source
  /-- It becomes the target. -/
  target_eq : (s.tick now).station.targets.frequencies.get output =
    (s.tick now).station.narrowed source
  /-- The output is off exactly when the fan gave no pulse in the window that was closed. -/
  target_eq_zero_iff : ∀ channel : Fin n, channel.val = source →
    ((s.tick now).station.targets.frequencies.get output = 0 ↔ pulses? channel = some 0)

/-- The sampler of a station notices nothing but its readings:
`(s.after events).sampler = s.sampler.after (s.meter.readings (measured events))`. -/
theorem sampler_after (s : Station n m) (events : List (Event n)) :
    (s.after events).sampler = s.sampler.after (s.meter.readings (measured events)) := by
  have h := congrArg Meter.sampler (s.meter_after events)
  rwa [Meter.sampler_after] at h

/-- The sampler of a station follows its course through any events:
`(s.after events).sampler.Follows (s.course c events)`. -/
theorem follows_after {s : Station n m} {c : Sampler.Course n} (h : s.sampler.Follows c)
    (events : List (Event n)) : (s.after events).sampler.Follows (s.course c events) := by
  rw [sampler_after]
  exact h.after _

/-- A round at the end of a run is a reading at its end:
`measured (events ++ [.tick now]) = measured events ++ [.update now]`. -/
theorem measured_concat_tick (events : List (Event n)) (now : Instant) :
    measured (events ++ [.tick now]) = measured events ++ [.update now] := by
  rw [measured, List.filterMap_append]
  rfl

/-- An accepted round closes a window with what the counters have gained on the baseline. -/
theorem pulses?_course_concat_tick {s : Station n m} {c : Sampler.Course n}
    (h : s.sampler.Follows c) {events : List (Event n)} {now : Instant}
    (hacc : ((s.after events).tick now).accepted = true) (channel : Fin n) :
    (s.course c (events ++ [.tick now])).pulses? channel =
      some ((s.after events).meter.counters.counts.get channel -
        (s.after events).meter.sampler.baseline.get channel) := by
  rw [accepted_tick, meter_after] at hacc
  rw [course, measured_concat_tick, meter_after]
  exact Meter.pulses?_readings_concat (m := s.meter) h hacc channel

/-- The frequency of a fan is measured also if there is no such fan. -/
theorem exists_measured {sampler : Sampler n} {c : Sampler.Course n} (h : sampler.Follows c)
    (source : Nat) :
    ∃ pulses?, Sampler.Measured ((sampler.frequency? source).getD 0) pulses? := by
  by_cases hlt : source < n
  · refine ⟨c.pulses? ⟨source, hlt⟩, ?_⟩
    rw [Sampler.frequency?, Vector.getElem?_eq_getElem hlt, Option.getD_some]
    exact h.measured ⟨source, hlt⟩
  · have hsecond : 0 < Sampler.usualLength.microseconds := by
      decide
    have hzero := Sampler.measured_frequencyOver hsecond none
    rw [Option.getD_none, Sampler.frequencyOver_zero hsecond] at hzero
    refine ⟨none, ?_⟩
    rwa [Sampler.frequency?, Vector.getElem?_eq_none (Nat.not_lt.mp hlt), Option.getD_none]

/-- **One round.** An output without a filter is given the frequency of its fan as it is. -/
theorem repeats_of_passThrough {s : Station n m} (ht : s.targets.Unsigned) {c : Sampler.Course n}
    (hfollows : s.sampler.Follows c) {events : List (Event n)} {now : Instant}
    (hacc : ((s.after events).tick now).accepted = true) {output : Fin m} {source : Nat}
    (hroute : s.routes.get output = ⟨source, .passThrough⟩) :
    (s.after events).Repeats now output source (s.course c (events ++ [.tick now])).pulses? := by
  have hafter : ((s.after events).tick now).station.sampler.Follows
      (s.course c (events ++ [.tick now])) := by
    have h := follows_after hfollows (events ++ [.tick now])
    rw [after_append] at h
    exact h
  obtain ⟨pulses?, hmeasured⟩ := exists_measured hafter source
  have husable : usable (((s.after events).tick now).station.narrowed source) =
      ((s.after events).tick now).station.narrowed source := hmeasured.usable_narrow
  have htarget : ((s.after events).tick now).station.targets.frequencies.get output =
      ((s.after events).tick now).station.narrowed source :=
    (target_of_passThrough ht hacc hroute).trans husable
  refine ⟨?_, husable, htarget, ?_⟩
  · rw [routes_after, hroute, Route.after_passThrough]
    rfl
  · rintro channel rfl
    have hfrequency : (((s.after events).tick now).station.sampler.frequency? channel).getD 0 =
        ((s.after events).tick now).station.sampler.frequencies.get channel := by
      rw [Sampler.frequency?, Vector.getElem?_eq_getElem channel.isLt, Option.getD_some]
      rfl
    -- the round has closed a window, so there are pulses, be it none
    have hpulses := pulses?_course_concat_tick hfollows hacc channel
    have hzero := (hafter.measured channel).eq_zero_iff
    rw [hpulses] at hzero ⊢
    rw [htarget]
    refine hmeasured.narrow_eq_zero_iff.trans ?_
    rw [hfrequency, hzero]
    simp

/-! ## Runs -/

/-- **Measured and repeated.** Whatever a sampler has been through, and whatever happens to the
station that it works for, all its frequencies are measured. An output that follows a fan without a
filter is given the frequency of the fan in every accepted round, and is off only if the window had
no pulse; in a disciplined run, if there was no edge on the pin of the fan, modulo the range of a
counter. -/
theorem measured_and_repeated {s : Station n m} {opened : Instant} {minLength : Span}
    {earlier : List (Sampler.Event n)} {changes : List (Nat × Binary64)}
    (hsampler : s.sampler = (Sampler.start opened minLength).after earlier)
    (htargets : s.targets = (Targets.off.setAll changes).targets) (events : List (Event n)) :
    (∀ channel : Fin n, Sampler.Measured ((s.after events).sampler.frequencies.get channel)
      ((s.course ((Sampler.start opened minLength).course (.begin opened) earlier) events).pulses?
        channel)) ∧
    (∀ (now : Instant) (output : Fin m) (source : Nat),
      s.routes.get output = ⟨source, .passThrough⟩ →
      ((s.after events).tick now).accepted = true →
      (s.after events).Repeats now output source
        (s.course ((Sampler.start opened minLength).course (.begin opened) earlier)
          (events ++ [.tick now])).pulses?) ∧
    (s.meter = .start opened minLength →
      ∀ (now : Instant) (output : Fin m) (channel : Fin n),
      s.routes.get output = ⟨channel, .passThrough⟩ →
      ((s.after events).tick now).accepted = true →
      Meter.Disciplined (s.meter.log (measured (events ++ [.tick now]))) →
      (((s.after events).tick now).station.targets.frequencies.get output = 0 ↔
        Meter.pulsesIn (s.meter.log (measured events)) channel % UInt32.size = 0)) := by
  have hunsigned : s.targets.Unsigned := by
    rw [htargets]
    exact Targets.unsigned_off.setAll changes
  have hfollows := (Sampler.follows_start (n := n) opened minLength).after earlier
  rw [← hsampler] at hfollows
  generalize (Sampler.start opened minLength).course (.begin opened) earlier = c at hfollows ⊢
  refine ⟨(follows_after hfollows events).measured, ?_, ?_⟩
  case refine_1 =>
    intro now output source hroute hacc
    exact repeats_of_passThrough hunsigned hfollows hacc hroute
  case refine_2 =>
    intro hmeter now output channel hroute hacc hd
    have hrepeats := repeats_of_passThrough hunsigned hfollows hacc hroute
    rw [measured_concat_tick, hmeter, Meter.log_concat] at hd
    have hpulses := (Meter.balanced_after opened minLength (measured events)
      channel).difference_of_disciplined hd
    rw [hrepeats.target_eq_zero_iff channel rfl, pulses?_course_concat_tick hfollows hacc channel,
      meter_after, hmeter, hpulses, Option.some_inj, ← UInt32.toNat_inj, UInt32.toNat_ofNat']
    rfl

/-- A station that repeats one fan without a filter. -/
def plainStation : Station 1 1 :=
  start (.start ⟨0⟩ Sampler.usualLength) #v[(Route.ofLink ⟨0⟩ ⟨0, "none", ""⟩).1]

/-- Three edges, and a round that comes too early. -/
def earlyRun : List (Event 1) :=
  [.configure (.replicate 1 4), .edge 4, .edge 4, .edge 9, .edge 4, .tick ⟨50000000⟩]

/-- After a second and a half the three edges are two a second, and the output is on. -/
theorem measured_and_repeated_earlyRun :
    plainStation.sampler = (Sampler.start ⟨0⟩ Sampler.usualLength).after [] ∧
      plainStation.targets = (Targets.off.setAll []).targets ∧
      plainStation.meter = .start ⟨0⟩ Sampler.usualLength ∧
      plainStation.routes.get 0 = ⟨0, .passThrough⟩ ∧
      ((plainStation.after earlyRun).tick ⟨150000000⟩).accepted = true ∧
      Meter.Disciplined (plainStation.meter.log (measured (earlyRun ++ [.tick ⟨150000000⟩]))) ∧
      (plainStation.after earlyRun).Repeats ⟨150000000⟩ 0 0
        (plainStation.course (.begin ⟨0⟩) (earlyRun ++ [.tick ⟨150000000⟩])).pulses? ∧
      Meter.pulsesIn (plainStation.meter.log (measured earlyRun)) 0 = 3 ∧
      ((plainStation.after earlyRun).tick ⟨150000000⟩).station.targets.frequencies.get 0 ≠ 0 := by
  have hroute : plainStation.routes.get 0 = ⟨0, .passThrough⟩ := by
    decide +kernel
  have hacc : ((plainStation.after earlyRun).tick ⟨150000000⟩).accepted = true := by
    decide +kernel
  have hd : Meter.Disciplined
      (plainStation.meter.log (measured (earlyRun ++ [.tick ⟨150000000⟩]))) :=
    ⟨by decide +kernel, by decide +kernel⟩
  have hpulses : Meter.pulsesIn (plainStation.meter.log (measured earlyRun)) 0 = 3 := by
    decide +kernel
  have hsampler : plainStation.sampler = (Sampler.start ⟨0⟩ Sampler.usualLength).after [] := rfl
  have htargets : plainStation.targets = (Targets.off.setAll []).targets := rfl
  obtain ⟨-, hrepeats, hzero⟩ := measured_and_repeated hsampler htargets earlyRun
  refine ⟨hsampler, htargets, rfl, hroute, hacc, hd, hrepeats _ 0 0 hroute hacc, hpulses, ?_⟩
  rw [Ne, hzero rfl _ 0 0 hroute hacc hd, hpulses]
  decide

end Station

end Tachometer
