import Tachometer.Proofs.Clock.Ticks
import Tachometer.Proofs.Measure.Frequency

/-! # The pace of a sampler

A sampler may be asked for a reading at any time, by a clock that stands still or goes backwards.
It accepts a reading when the open window is long enough and leaves everything as it was when it is
not, so the windows lie end to end and none is too short to divide by.

* `Sampler.Event`, `Sampler.after` — runs of readings, with any counts at any times, and resets.
* `Sampler.Course`, `Sampler.course` — what a sampler has accepted since it started over.
* `Sampler.accepted_update_iff` — which readings are accepted.
* `Sampler.Paced`, `Sampler.paced_after` — the pace of a sampler after any run. -/

namespace Tachometer.Sampler

variable {n : Nat} {s : Sampler n}

/-! ## Runs -/

/-- What can happen to a sampler. -/
inductive Event (n : Nat) where
  /-- It is given a reading of the counters. -/
  | update (counts : Vector UInt32 n) (now : Instant)
  /-- It starts over. -/
  | reset (now : Instant)
  deriving DecidableEq, Repr

/-- The sampler after an event. -/
def respond (s : Sampler n) : Event n → Sampler n
  | .update counts now => (s.update counts now).sampler
  | .reset now => s.reset now

/-- The sampler after a run of events, oldest first. -/
def after (s : Sampler n) (events : List (Event n)) : Sampler n := events.foldl respond s

/-- What a sampler has been through since it was made or last started over. -/
structure Course (n : Nat) where
  /-- When that was. -/
  origin : Instant
  /-- The readings that it has accepted since, latest first. -/
  taken : List (Vector UInt32 n)
  deriving DecidableEq, Repr

/-- Nothing has happened yet to a sampler that is made or starts over. -/
def Course.begin (origin : Instant) : Course n := ⟨origin, []⟩

/-- The course of a sampler after one more event. -/
def extend (s : Sampler n) (c : Course n) : Event n → Course n
  | .update counts now =>
    if (s.update counts now).accepted then { c with taken := counts :: c.taken } else c
  | .reset now => .begin now

/-- The course of a sampler after a run of events. -/
def course (s : Sampler n) (c : Course n) : List (Event n) → Course n
  | [] => c
  | event :: events => (s.respond event).course (s.extend c event) events

/-- No events change nothing: `s.after [] = s`. -/
@[simp] theorem after_nil (s : Sampler n) : s.after [] = s := rfl

/-- A run goes on from its first event:
`s.after (event :: events) = (s.respond event).after events`. -/
@[simp] theorem after_cons (s : Sampler n) (event : Event n) (events : List (Event n)) :
    s.after (event :: events) = (s.respond event).after events := rfl

/-- No events add nothing to the course: `s.course c [] = c`. -/
@[simp] theorem course_nil (s : Sampler n) (c : Course n) : s.course c [] = c := rfl

/-- The course of a run is extended by its first event and goes on from there:
`s.course c (event :: events) = (s.respond event).course (s.extend c event) events`. -/
@[simp] theorem course_cons (s : Sampler n) (c : Course n) (event : Event n)
    (events : List (Event n)) :
    s.course c (event :: events) = (s.respond event).course (s.extend c event) events := rfl

/-! ## One reading -/

/-- The ticks that a window has at least: those of the least length, and those of a microsecond in
any case. -/
def leastTicks (minLength : Span) : Nat := max minLength.ticks.toNat 100

/-- No window is empty: `0 < leastTicks minLength`. -/
theorem leastTicks_pos (minLength : Span) : 0 < leastTicks minLength := by
  unfold leastTicks
  omega

/-- A window is closed when it is long enough for the sampler and lasts a microsecond. -/
theorem window?_eq_some_iff {now : Instant} {window : Span} :
    s.window? now = some window ↔
      now.since? s.opened = some window ∧ s.minLength ≤ window ∧ 0 < window.microseconds := by
  rw [window?, Option.filter_eq_some_iff, Bool.and_eq_true, decide_eq_true_iff,
    decide_eq_true_iff]

/-- A window has a microsecond exactly if it has a hundred ticks:
`0 < window.microseconds ↔ 100 ≤ window.ticks.toNat`. -/
theorem microseconds_pos_iff {window : Span} :
    0 < window.microseconds ↔ 100 ≤ window.ticks.toNat := by
  rw [UInt64.lt_iff_toNat_lt, Span.toNat_microseconds]
  show 0 < window.ticks.toNat / 100 ↔ _
  omega

/-- A window has the least number of ticks exactly if it has the least length, and a microsecond:
`leastTicks minLength ≤ window.ticks.toNat ↔ minLength ≤ window ∧ 0 < window.microseconds`. -/
theorem leastTicks_le_iff {minLength window : Span} :
    leastTicks minLength ≤ window.ticks.toNat ↔ minLength ≤ window ∧ 0 < window.microseconds := by
  rw [leastTicks, Nat.max_le, Span.le_iff, microseconds_pos_iff]

/-- The window that is closed, in ticks. -/
theorem window?_eq_some_iff_ticks {now : Instant} {window : Span} :
    s.window? now = some window ↔
      s.opened.ticks.toNat + window.ticks.toNat = now.ticks.toNat ∧
        leastTicks s.minLength ≤ window.ticks.toNat := by
  rw [window?_eq_some_iff, Instant.since?_eq_some_iff, leastTicks_le_iff]

/-- A reading that is accepted closes a window: `∃ window, s.window? now = some window`. -/
theorem exists_window?_of_accepted {counts : Vector UInt32 n} {now : Instant}
    (h : (s.update counts now).accepted = true) : ∃ window, s.window? now = some window := by
  cases hw : s.window? now with
  | none =>
    rw [update_of_window?_eq_none hw] at h
    exact absurd h (by simp)
  | some window => exact ⟨window, rfl⟩

/-- **Accepted readings** come when the clock has not gone backwards and the open window is long
enough. -/
theorem accepted_update_iff (counts : Vector UInt32 n) (now : Instant) :
    (s.update counts now).accepted = true ↔
      s.opened.ticks.toNat ≤ now.ticks.toNat ∧
        leastTicks s.minLength ≤ now.ticks.toNat - s.opened.ticks.toNat := by
  constructor
  · intro h
    obtain ⟨window, hw⟩ := exists_window?_of_accepted h
    obtain ⟨hsum, hleast⟩ := window?_eq_some_iff_ticks.mp hw
    omega
  · rintro ⟨hle, hleast⟩
    have hsum := Instant.toNat_since hle
    have hw : s.window? now = some (now.since s.opened) :=
      window?_eq_some_iff_ticks.mpr ⟨hsum, by omega⟩
    rw [update_of_window?_eq_some hw]

/-- A reading that is not accepted changes nothing: `(s.update counts now).sampler = s`. -/
theorem sampler_update_of_rejected {counts : Vector UInt32 n} {now : Instant}
    (h : (s.update counts now).accepted = false) : (s.update counts now).sampler = s := by
  cases hw : s.window? now with
  | none => rw [update_of_window?_eq_none hw]
  | some window =>
    rw [update_of_window?_eq_some hw] at h
    exact absurd h (by simp)

/-- A reading that is accepted closes the open window and opens the next one. -/
theorem sampler_update_of_accepted {counts : Vector UInt32 n} {now : Instant}
    (h : (s.update counts now).accepted = true) :
    ∃ window, s.window? now = some window ∧
      (s.update counts now).sampler = s.close counts window now := by
  obtain ⟨window, hw⟩ := exists_window?_of_accepted h
  exact ⟨window, hw, by rw [update_of_window?_eq_some hw]⟩

/-! ## The pace -/

/-- The windows that a sampler has closed on its course fit between its start and the open
window. -/
def KeepsPace (s : Sampler n) (c : Course n) : Prop :=
  c.origin.ticks.toNat + c.taken.length * leastTicks s.minLength ≤ s.opened.ticks.toNat

/-- No event changes the least length of a window: `(s.respond event).minLength = s.minLength`. -/
theorem minLength_respond (s : Sampler n) (event : Event n) :
    (s.respond event).minLength = s.minLength := by
  cases event with
  | update counts now => exact minLength_update s counts now
  | reset now => rfl

/-- No run changes the least length of a window: `(s.after events).minLength = s.minLength`. -/
theorem minLength_after (s : Sampler n) (events : List (Event n)) :
    (s.after events).minLength = s.minLength := by
  induction events generalizing s with
  | nil => rfl
  | cons event events ih => rw [after_cons, ih, minLength_respond]

/-- **One event.** An accepted reading moves the open window on by as much as it adds to the
windows that have to fit. -/
theorem KeepsPace.respond {c : Course n} (h : s.KeepsPace c) (event : Event n) :
    (s.respond event).KeepsPace (s.extend c event) := by
  unfold KeepsPace at h ⊢
  rw [minLength_respond]
  cases event with
  | update counts now =>
    rw [Sampler.respond, extend]
    cases hacc : (s.update counts now).accepted with
    | true =>
      obtain ⟨window, hw, hclose⟩ := sampler_update_of_accepted hacc
      obtain ⟨hsum, hleast⟩ := window?_eq_some_iff_ticks.mp hw
      rw [hclose]
      show c.origin.ticks.toNat + (c.taken.length + 1) * _ ≤ now.ticks.toNat
      rw [Nat.add_one_mul]
      omega
    | false =>
      rw [sampler_update_of_rejected hacc]
      exact h
  | reset now =>
    show now.ticks.toNat + 0 * _ ≤ now.ticks.toNat
    omega

/-- A sampler keeps pace through any events: `(s.after events).KeepsPace (s.course c events)`. -/
theorem KeepsPace.after {c : Course n} (h : s.KeepsPace c) (events : List (Event n)) :
    (s.after events).KeepsPace (s.course c events) := by
  induction events generalizing s c with
  | nil => exact h
  | cons event events ih => exact ih (h.respond event)

/-- What a sampler makes of any reading, and where its course has brought it. -/
structure Paced (s : Sampler n) (minLength : Span) (c : Course n) : Prop where
  /-- A reading is accepted when the clock is not behind the start of the open window and the window
  has the ticks that it has at least. -/
  accepted_iff : ∀ counts now, (s.update counts now).accepted = true ↔
    s.opened.ticks.toNat ≤ now.ticks.toNat ∧
      leastTicks minLength ≤ now.ticks.toNat - s.opened.ticks.toNat
  /-- A reading that is not accepted changes nothing. -/
  sampler_eq : ∀ counts now, (s.update counts now).accepted = false →
    (s.update counts now).sampler = s
  /-- A reading that is accepted opens the next window, later than the one before. -/
  opened_lt : ∀ counts now, (s.update counts now).accepted = true →
    (s.update counts now).sampler.opened = now ∧ s.opened.ticks.toNat < now.ticks.toNat
  /-- It divides by the length of the window that it closes, which is more than no time. -/
  divides : ∀ counts now, (s.update counts now).accepted = true →
    ∃ window, now.since? s.opened = some window ∧ 0 < window.seconds ∧
      ∀ channel : Fin n, (s.update counts now).sampler.frequencies.get channel =
        .ofNat (counts.get channel - s.baseline.get channel).toNat / window.seconds
  /-- All windows so far had the ticks that a window has at least. -/
  le_opened : c.origin.ticks.toNat + c.taken.length * leastTicks minLength ≤
    s.opened.ticks.toNat

/-- A window that lasts a microsecond is more than no seconds: `0 < window.seconds`. -/
theorem seconds_pos {window : Span} (h : 0 < window.microseconds) : 0 < window.seconds := by
  rw [Binary.lt_iff_toRat Binary.isFinite_zero window.isFinite_seconds.1, Binary.toRat_zero]
  exact lt_of_lt_of_le (by positivity) (Span.seconds_bounds h)

/-- **The pace of a sampler.** Whatever readings and resets come, in whatever order and by whatever
clock, a sampler accepts exactly the readings that end a long enough window, and all windows since
it was made or started over fit into the time since. -/
theorem paced_after (opened : Instant) (minLength : Span) (events : List (Event n)) :
    Paced ((start opened minLength : Sampler n).after events) minLength
      ((start opened minLength : Sampler n).course (.begin opened) events) := by
  have hlength : ((start opened minLength : Sampler n).after events).minLength = minLength :=
    minLength_after _ events
  have hstart : (start opened minLength : Sampler n).KeepsPace (.begin opened) := by
    show opened.ticks.toNat + 0 * _ ≤ opened.ticks.toNat
    omega
  have hpace := hstart.after events
  unfold KeepsPace at hpace
  rw [hlength] at hpace
  generalize (start opened minLength : Sampler n).after events = s at hlength hpace ⊢
  subst hlength
  refine ⟨accepted_update_iff, fun counts now => sampler_update_of_rejected, ?_, ?_, hpace⟩
  · intro counts now hacc
    obtain ⟨window, hw, hclose⟩ := sampler_update_of_accepted hacc
    obtain ⟨hsum, hleast⟩ := window?_eq_some_iff_ticks.mp hw
    have hpos := leastTicks_pos s.minLength
    exact ⟨by rw [hclose]; rfl, by omega⟩
  · intro counts now hacc
    obtain ⟨window, hw, hclose⟩ := sampler_update_of_accepted hacc
    obtain ⟨hsince, -, hmicros⟩ := window?_eq_some_iff.mp hw
    refine ⟨window, hsince, seconds_pos hmicros, fun channel => ?_⟩
    rw [hclose]
    exact Vector.getElem_zipWith channel.isLt

end Tachometer.Sampler
