import Tachometer.Proofs.Measure.Meter
import Tachometer.Proofs.Measure.Pace

/-! # Every frequency that a sampler keeps

A sampler keeps the frequencies of the last window that it has closed, and zeros before the first
one. Its course tells which pulses these are the frequencies of, and no later stage has to fear any
of them.

* `Sampler.Measured`, `Sampler.measured_frequencyOver` — what holds of a measured frequency.
* `Sampler.Course.pulses?` — the pulses in the last window that was closed.
* `Sampler.Follows`, `Sampler.Follows.after` — how baseline and frequencies stand to the course.
* `Sampler.measured_after` — every frequency after every run is measured.
* `Meter.readings`, `Meter.pulses?_readings_concat` — the readings that a sampler takes of counters,
  and the pulses that it finds in them. -/

namespace Tachometer

namespace Sampler

variable {n : Nat} {s : Sampler n}

/-! ## Measured frequencies -/

/-- What holds of the frequency of some pulses, or of none as long as no window was closed. -/
structure Measured (frequency : Binary64) (pulses? : Option UInt32) : Prop where
  /-- It is finite. -/
  isFinite : frequency.isFinite = true
  /-- It is not below zero. -/
  nonneg : 0 ≤ frequency
  /-- It has no minus, not even as a zero. -/
  negative_eq : frequency.negative = false
  /-- It is zero exactly when there was no window or no pulse in it. -/
  eq_zero_iff : frequency = 0 ↔ pulses? = none ∨ pulses? = some 0
  /-- It is finite in the smaller format. -/
  isFinite_narrow : (frequency.convert : Binary32).isFinite = true
  /-- It has the value zero there only if it is zero. -/
  eq_zero_of_narrow : (frequency.convert : Binary32).sameValue 0 = true → frequency = 0

/-- A measured frequency has no minus, not even as zero:
`(frequencyOver window 0 pulses).negative = false`. -/
theorem negative_frequencyOver {window : Span} (h : 0 < window.microseconds) (pulses : UInt32) :
    (frequencyOver window 0 pulses).negative = false := by
  have hpos : 0 < window.seconds.toRat :=
    lt_of_lt_of_le (by positivity) (Span.seconds_bounds h)
  have hnonneg : ¬(pulses.toNat / window.seconds.toRat : Rat) < 0 := by
    rw [not_lt]
    positivity
  rw [frequencyOver_eq_round h, Binary.negative_round, decide_eq_false hnonneg, ite_self]

/-- A measured frequency is zero exactly if there were no pulses:
`frequencyOver window 0 pulses = 0 ↔ pulses = 0`. -/
theorem frequencyOver_eq_zero_iff {window : Span} (h : 0 < window.microseconds)
    (pulses : UInt32) : frequencyOver window 0 pulses = 0 ↔ pulses = 0 := by
  constructor
  · intro hzero
    by_contra hp
    have hpos := (frequencyOver_pos_iff h pulses).mpr hp
    rw [hzero] at hpos
    exact Binary.lt_irrefl 0 hpos
  · rintro rfl
    exact frequencyOver_zero h

/-- **Measured frequencies.** The frequency of any pulses over a window of a microsecond or more is
one that later stages can work with. -/
theorem measured_frequencyOver {window : Span} (h : 0 < window.microseconds)
    (pulses? : Option UInt32) :
    Measured (frequencyOver window 0 (pulses?.getD 0)) pulses? := by
  obtain ⟨hfin, hnonneg, -⟩ := frequencyOver_bounds h (pulses?.getD 0)
  refine ⟨hfin, hnonneg, negative_frequencyOver h _, ?_, isFinite_signalOver h _, ?_⟩
  · rw [frequencyOver_eq_zero_iff h]
    cases pulses? <;> simp
  · intro hsame
    rw [frequencyOver_eq_zero_iff h]
    by_contra hp
    -- with a pulse there is a signal, so it does not have the value zero
    exact Binary.lt_irrefl _
      (Binary.lt_of_lt_of_le (signalOver_pos h hp) (Binary.le_of_sameValue hsame).1)

/-! ## Pulses of a course -/

/-- The last reading that was accepted; before the first one the counters count as being at zero. -/
def latest (taken : List (Vector UInt32 n)) : Vector UInt32 n :=
  taken.headD (Vector.replicate n 0)

/-- The pulses of a channel in the last window that was closed: what its counter, which wraps
around, has gained on the reading before. -/
def Course.pulses? (c : Course n) (channel : Fin n) : Option UInt32 :=
  match c.taken with
  | [] => none
  | counts :: earlier => some (counts.get channel - (latest earlier).get channel)

/-- At the start no window was closed: `(Course.begin origin).pulses? channel = none`. -/
theorem pulses?_begin (origin : Instant) (channel : Fin n) :
    (Course.begin origin).pulses? channel = none := rfl

/-- An accepted reading closes a window with the pulses since the reading before. -/
theorem pulses?_extend_of_accepted {counts : Vector UInt32 n} {now : Instant}
    (h : (s.update counts now).accepted = true) (c : Course n) (channel : Fin n) :
    (s.extend c (.update counts now)).pulses? channel =
      some (counts.get channel - (latest c.taken).get channel) := by
  rw [extend, if_pos h]
  rfl

/-- How a sampler stands to its course. -/
structure Follows (s : Sampler n) (c : Course n) : Prop where
  /-- The open window starts at the last reading that was accepted. -/
  baseline_eq : s.baseline = latest c.taken
  /-- The frequencies are those of the pulses in the last window that was closed. -/
  frequencies_eq : ∃ window, 0 < window.microseconds ∧
    ∀ channel : Fin n,
      s.frequencies.get channel = frequencyOver window 0 ((c.pulses? channel).getD 0)

/-- A new sampler follows the course that begins with it:
`(start opened minLength).Follows (.begin opened)`. -/
theorem follows_start (opened : Instant) (minLength : Span) :
    (start opened minLength : Sampler n).Follows (.begin opened) := by
  have hsecond : 0 < usualLength.microseconds := by
    decide
  refine ⟨rfl, usualLength, hsecond, fun channel => ?_⟩
  rw [pulses?_begin, Option.getD_none, frequencyOver_zero hsecond]
  exact Vector.getElem_replicate channel.isLt

/-- **One event.** An accepted reading gives the frequencies of the pulses that it adds to the
course, a reset forgets both, and a rejected reading keeps both. -/
theorem Follows.respond {c : Course n} (h : s.Follows c) (event : Event n) :
    (s.respond event).Follows (s.extend c event) := by
  cases event with
  | update counts now =>
    rw [Sampler.respond]
    cases hacc : (s.update counts now).accepted with
    | true =>
      obtain ⟨window, hw, hclose⟩ := sampler_update_of_accepted hacc
      rw [hclose]
      refine ⟨?_, window, (window?_eq_some_iff.mp hw).2.2, fun channel => ?_⟩
      · rw [extend, if_pos hacc]
        rfl
      · rw [pulses?_extend_of_accepted hacc, Option.getD_some, ← h.baseline_eq,
          ← frequencyOver_eq_sub]
        exact Vector.getElem_zipWith channel.isLt
    | false =>
      rw [sampler_update_of_rejected hacc, extend, if_neg (by simp [hacc])]
      exact h
  | reset now => exact follows_start now s.minLength

/-- A sampler follows its course through any events:
`(s.after events).Follows (s.course c events)`. -/
theorem Follows.after {c : Course n} (h : s.Follows c) (events : List (Event n)) :
    (s.after events).Follows (s.course c events) := by
  induction events generalizing s c with
  | nil => exact h
  | cons event events ih => exact ih (h.respond event)

/-- The frequencies of a sampler that follows its course are measured:
`Measured (s.frequencies.get channel) (c.pulses? channel)`. -/
theorem Follows.measured {c : Course n} (h : s.Follows c) (channel : Fin n) :
    Measured (s.frequencies.get channel) (c.pulses? channel) := by
  obtain ⟨window, hpos, hfrequency⟩ := h.frequencies_eq
  rw [hfrequency channel]
  exact measured_frequencyOver hpos (c.pulses? channel)

/-- **Frequencies of any run.** Whatever readings and resets a sampler has been through, all its
frequencies are measured. -/
theorem measured_after (opened : Instant) (minLength : Span) (events : List (Event n))
    (channel : Fin n) :
    Measured (((start opened minLength).after events).frequencies.get channel)
      (((start opened minLength).course (.begin opened) events).pulses? channel) :=
  ((follows_start opened minLength).after events).measured channel

/-! ## Longer runs -/

/-- Events come in order: `s.after (first ++ second) = (s.after first).after second`. -/
theorem after_append (s : Sampler n) (first second : List (Event n)) :
    s.after (first ++ second) = (s.after first).after second :=
  List.foldl_append ..

/-- The course of a longer run goes on where that of the shorter one ends. -/
theorem course_append (s : Sampler n) (c : Course n) (first second : List (Event n)) :
    s.course c (first ++ second) = (s.after first).course (s.course c first) second := by
  induction first generalizing s c with
  | nil => rfl
  | cons event events ih => exact ih _ _

end Sampler

/-! ## Readings of counters -/

namespace Meter

variable {n : Nat}

/-- What an event means to the sampler, if it means something to it. -/
def reading? (m : Meter n) : Event n → Option (Sampler.Event n)
  | .count _ => none
  | .update now => some (.update m.counters.snapshot now)
  | .reset now => some (.reset now)

/-- What happens to the sampler in a run. -/
def readings (m : Meter n) : List (Event n) → List (Sampler.Event n)
  | [] => []
  | event :: events => (m.reading? event).toList ++ (m.respond event).readings events

/-- No events bring no readings: `m.readings [] = []`. -/
@[simp] theorem readings_nil (m : Meter n) : m.readings [] = [] := rfl

/-- The readings of a run are those of its first event and then those of the rest: `m.readings
(event :: events) = (m.reading? event).toList ++ (m.respond event).readings events`. -/
@[simp] theorem readings_cons (m : Meter n) (event : Event n) (events : List (Event n)) :
    m.readings (event :: events) =
      (m.reading? event).toList ++ (m.respond event).readings events := rfl

/-- The readings of a longer run go on where those of the shorter one end:
`m.readings (first ++ second) = m.readings first ++ (m.after first).readings second`. -/
theorem readings_append (m : Meter n) (first second : List (Event n)) :
    m.readings (first ++ second) = m.readings first ++ (m.after first).readings second := by
  induction first generalizing m with
  | nil => rfl
  | cons event events ih => simp [ih]

/-- **The sampler of a meter** notices nothing but its readings. -/
theorem sampler_after (m : Meter n) (events : List (Event n)) :
    (m.after events).sampler = m.sampler.after (m.readings events) := by
  induction events generalizing m with
  | nil => rfl
  | cons event events ih =>
    rw [after_cons, ih, readings_cons, Sampler.after_append]
    cases event <;> rfl

/-- An accepted reading at the end of a run closes a window with what the counters have gained on
the baseline. -/
theorem pulses?_readings_concat {m : Meter n} {c : Sampler.Course n} (h : m.sampler.Follows c)
    {events : List (Event n)} {now : Instant} (hacc : ((m.after events).read now).accepted = true)
    (channel : Fin n) :
    (m.sampler.course c (m.readings (events ++ [.update now]))).pulses? channel =
      some ((m.after events).counters.counts.get channel -
        (m.after events).sampler.baseline.get channel) := by
  have hfollows := h.after (m.readings events)
  rw [← sampler_after] at hfollows
  rw [readings_append, Sampler.course_append, ← sampler_after, hfollows.baseline_eq,
    ← Counters.snapshot_eq (m.after events).counters]
  exact Sampler.pulses?_extend_of_accepted hacc _ channel

end Meter

end Tachometer
