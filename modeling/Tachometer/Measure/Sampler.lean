import Tachometer.Input.Counters
import Tachometer.Measure.Speed

/-! # Sampling pulse frequencies

The sampler turns counter readings into frequencies, over windows of at least a set length. A
reading that comes too early, or from a clock that went backwards, changes nothing, so its pulses
fall into the next window.

* `Sampler.window?` — the window that a reading at a given time would close.
* `Sampler.close` — the frequencies of a window: pulses over seconds.
* `Sampler.update` — takes a reading, if its window is long enough.
* `Sampler.read`, `Sampler.poll` — the same for counters, at a given time or at the one that a
  clock shows. -/

namespace Tachometer

/-- The sampler of `n` input channels. -/
structure Sampler (n : Nat) where
  /-- The reading at which the open window starts. -/
  baseline : Vector UInt32 n
  /-- The time at which the open window starts. -/
  opened : Instant
  /-- The frequencies, in hertz, over the last closed window. -/
  frequencies : Vector Binary64 n
  /-- The least length of a window. -/
  minLength : Span
  deriving DecidableEq, Repr

namespace Sampler

variable {n : Nat}

/-- The usual least length of a window: one second. -/
def usualLength : Span := .ofMicroseconds 1000000

/-- A sampler that opens its first window at `now`, with counters at zero. -/
def start (now : Instant) (minLength : Span) : Sampler n where
  baseline := Vector.replicate n 0
  opened := now
  frequencies := Vector.replicate n 0
  minLength := minLength

/-- Opens a new window at `now`, forgets the frequencies, and takes the counters to be at zero. -/
def reset (s : Sampler n) (now : Instant) : Sampler n := start now s.minLength

/-! ## Windows -/

/-- The window that a reading at `now` closes: long enough, and a microsecond at least, so that
its length in seconds is not zero. -/
def window? (s : Sampler n) (now : Instant) : Option Span :=
  (now.since? s.opened).filter fun window => s.minLength ≤ window && 0 < window.microseconds

/-- The frequency of a channel over a window. The counter may have wrapped around on the way. -/
def frequencyOver (window : Span) (before after : UInt32) : Binary64 :=
  .ofNat (after - before).toNat / window.seconds

/-- Closes the open window with a reading and opens the next. -/
def close (s : Sampler n) (counts : Vector UInt32 n) (window : Span) (now : Instant) :
    Sampler n where
  baseline := counts
  opened := now
  frequencies := s.baseline.zipWith (frequencyOver window) counts
  minLength := s.minLength

/-- What came of a reading. -/
structure Reading (n : Nat) where
  /-- The sampler afterwards. -/
  sampler : Sampler n
  /-- Whether the reading closed a window. -/
  accepted : Bool
  /-- What was reported. -/
  notices : List Notice

/-- Takes a reading of the counters at `now`. -/
def update (s : Sampler n) (counts : Vector UInt32 n) (now : Instant) : Reading n :=
  match s.window? now with
  | none => ⟨s, false, []⟩
  | some window =>
    let s' := s.close counts window now
    ⟨s', true, [.sampleTaken window s'.frequencies.toList]⟩

/-- Takes a reading of counters at `now`. -/
def read (s : Sampler n) (c : Counters n) (now : Instant) : Reading n := s.update c.snapshot now

/-- Takes a reading of counters at the time that a clock shows once they were read. -/
def poll {m : Type → Type} [Monad m] (s : Sampler n) (c : Counters n) (clock : m Instant) :
    m (Reading n) := do
  let counts := c.snapshot
  let now ← clock
  return s.update counts now

/-! ## Results -/

/-- The last frequency of a channel, if there is such a channel. -/
def frequency? (s : Sampler n) (channel : Nat) : Option Binary64 :=
  s.frequencies[channel]?

/-- The last speed of a channel, if there is such a channel. -/
def speed? (s : Sampler n) (channel pulsesPerRevolution : Nat) : Option Binary64 :=
  (s.frequency? channel).map (revolutionsPerMinute · pulsesPerRevolution)

/-- A reading that closes no window changes and reports nothing:
`s.update counts now = ⟨s, false, []⟩`. -/
theorem update_of_window?_eq_none {s : Sampler n} {now : Instant} (h : s.window? now = none)
    (counts : Vector UInt32 n) : s.update counts now = ⟨s, false, []⟩ := by
  simp [update, h]

/-- A reading that closes a window gives its frequencies and reports them, in one notice with the
length of the window. -/
theorem update_of_window?_eq_some {s : Sampler n} {now : Instant} {window : Span}
    (h : s.window? now = some window) (counts : Vector UInt32 n) :
    s.update counts now = ⟨s.close counts window now, true,
      [.sampleTaken window (s.close counts window now).frequencies.toList]⟩ := by
  simp [update, h]

/-- Counters are read as they stand: `s.read c now = s.update c.counts now`. -/
theorem read_eq (s : Sampler n) (c : Counters n) (now : Instant) :
    s.read c now = s.update c.counts now := by
  rw [read, Counters.snapshot_eq]

/-- A clock is asked once, whatever it costs to ask it: `s.poll c clock = s.read c <$> clock`. -/
theorem poll_eq_map {m : Type → Type} [Monad m] [LawfulMonad m] (s : Sampler n) (c : Counters n)
    (clock : m Instant) : s.poll c clock = s.read c <$> clock :=
  (map_eq_pure_bind (s.read c) clock).symm

/-- The window that a reading closes is the time since it was opened:
`now.since? s.opened = some window`. -/
theorem since?_of_window?_eq_some {s : Sampler n} {now : Instant} {window : Span}
    (h : s.window? now = some window) : now.since? s.opened = some window :=
  (Option.filter_eq_some_iff.mp h).1

/-- A reading does not change the least length of a window:
`(s.update counts now).sampler.minLength = s.minLength`. -/
@[simp] theorem minLength_update (s : Sampler n) (counts : Vector UInt32 n) (now : Instant) :
    (s.update counts now).sampler.minLength = s.minLength := by
  unfold update
  split <;> rfl

end Sampler

end Tachometer
