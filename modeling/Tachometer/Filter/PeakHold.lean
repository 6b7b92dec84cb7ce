import Tachometer.Clock

/-! # Peak hold with linear decay

A peak hold follows its input up at once. A lower input leaves the peak alone for the hold delay;
after it the peak drops by a fixed rate per second until the input catches up. The drop is
applied call by call, from the time between calls.

* `PeakHold.dropTime?` — the time for which the peak drops at a call, if it drops.
* `PeakHold.lowered` — the peak after dropping for that time, but no lower than the input.
* `PeakHold.step` — one call; the peak afterwards is its result. -/

namespace Tachometer

namespace PeakHold

/-- The settings of a peak hold. -/
structure Settings where
  /-- The drop of the peak per second. -/
  rate : Binary32
  /-- How long a peak is held before it drops. -/
  delay : Span
  deriving DecidableEq, Repr

/-- Where a peak hold is in its cycle. -/
inductive Phase where
  /-- The peak was taken at a given time and is held until the hold delay is over. -/
  | holding (since : Instant)
  /-- The peak is dropping. The time at which it was taken is not kept: it counts only while a peak
  is held, and the next peak comes with a time of its own. -/
  | dropping
  deriving DecidableEq, Repr

end PeakHold

/-- A peak hold. -/
structure PeakHold where
  /-- Its settings. -/
  settings : PeakHold.Settings
  /-- The held peak, which is also the last result. -/
  peak : Binary32
  /-- Where the peak is in its cycle. -/
  phase : PeakHold.Phase
  /-- The time of the last call. -/
  lastCall : Instant
  deriving DecidableEq, Repr

namespace PeakHold

/-- A peak hold that has had no input yet. It holds zero, as if since the clock started. -/
def start (settings : Settings) (now : Instant) : PeakHold where
  settings := settings
  peak := 0
  phase := .holding ⟨0⟩
  lastCall := now

/-! ## Calls -/

/-- The time for which the peak drops at a call at `now` whose input is below it. At the first
drop after a hold delay only the time past the delay counts. -/
def dropTime? (p : PeakHold) (now : Instant) : Option Span :=
  match p.phase with
  | .dropping => some (now.since p.lastCall)
  | .holding since =>
    if 0 < p.settings.delay then
      let held := now.since since
      if p.settings.delay < held then some (held - p.settings.delay) else none
    else some (now.since p.lastCall)

/-- The level, not yet rounded to a peak, that the peak drops to in a span of time. -/
def levelAfter (p : PeakHold) (time : Span) : Binary64 :=
  p.peak.convert - time.seconds * p.settings.rate.convert

/-- The peak after dropping for a span of time, unless the input is higher by then. -/
def lowered (p : PeakHold) (input : Binary32) (time : Span) : Binary32 :=
  if p.levelAfter time < input.convert then input else (p.levelAfter time).convert

/-- Feeds an input taken at `now`. -/
def step (p : PeakHold) (input : Binary32) (now : Instant) : PeakHold :=
  if p.peak ≤ input then { p with peak := input, phase := .holding now, lastCall := now }
  else
    match p.dropTime? now with
    | none => { p with lastCall := now }
    | some time => { p with peak := p.lowered input time, phase := .dropping, lastCall := now }

/-- The peak hold after a row of calls, oldest first. -/
def run (p : PeakHold) (calls : List (Binary32 × Instant)) : PeakHold :=
  calls.foldl (fun p call => p.step call.1 call.2) p

/-- Whether two peak holds agree in every part, numbers by value. -/
def agrees (p q : PeakHold) : Bool :=
  p.settings.rate.sameValue q.settings.rate && p.settings.delay == q.settings.delay &&
    p.peak.sameValue q.peak && p.phase == q.phase && p.lastCall == q.lastCall

/-- Before the first call the peak is zero: `(start settings now).peak = 0`. -/
@[simp] theorem peak_start (settings : Settings) (now : Instant) :
    (start settings now).peak = 0 := rfl

/-- A new peak hold has the settings that it is given:
`(start settings now).settings = settings`. -/
@[simp] theorem settings_start (settings : Settings) (now : Instant) :
    (start settings now).settings = settings := rfl

/-- A call does not change the settings: `(p.step input now).settings = p.settings`. -/
@[simp] theorem settings_step (p : PeakHold) (input : Binary32) (now : Instant) :
    (p.step input now).settings = p.settings := by
  unfold step
  split
  · rfl
  · split <;> rfl

/-- Every call is the last one from then on: `(p.step input now).lastCall = now`. -/
@[simp] theorem lastCall_step (p : PeakHold) (input : Binary32) (now : Instant) :
    (p.step input now).lastCall = now := by
  unfold step
  split
  · rfl
  · split <;> rfl

/-- No calls change nothing: `p.run [] = p`. -/
@[simp] theorem run_nil (p : PeakHold) : p.run [] = p := rfl

/-- A run goes on from the step of its first call:
`p.run (call :: calls) = (p.step call.1 call.2).run calls`. -/
@[simp] theorem run_cons (p : PeakHold) (call : Binary32 × Instant)
    (calls : List (Binary32 × Instant)) :
    p.run (call :: calls) = (p.step call.1 call.2).run calls := rfl

/-- A run does not change the settings: `(p.run calls).settings = p.settings`. -/
@[simp] theorem settings_run (p : PeakHold) (calls : List (Binary32 × Instant)) :
    (p.run calls).settings = p.settings := by
  induction calls generalizing p with
  | nil => rfl
  | cons call calls ih => simp [ih]

/-- An input that is no lower than the peak becomes the peak and is held from now on:
`p.step input now = { p with peak := input, phase := .holding now, lastCall := now }`. -/
theorem step_of_peak_le {p : PeakHold} {input : Binary32} (h : p.peak ≤ input) (now : Instant) :
    p.step input now = { p with peak := input, phase := .holding now, lastCall := now } := by
  simp [step, h]

/-- A lower input that finds nothing to drop leaves its time behind and nothing else:
`p.step input now = { p with lastCall := now }`. -/
theorem step_of_dropTime?_eq_none {p : PeakHold} {input : Binary32} {now : Instant}
    (h : ¬p.peak ≤ input) (hn : p.dropTime? now = none) :
    p.step input now = { p with lastCall := now } := by
  simp [step, h, hn]

/-- A lower input lets the peak drop for the time that there is for it: `p.step input now = { p with
peak := p.lowered input time, phase := .dropping, lastCall := now }`. -/
theorem step_of_dropTime?_eq_some {p : PeakHold} {input : Binary32} {now : Instant} {time : Span}
    (h : ¬p.peak ≤ input) (ht : p.dropTime? now = some time) :
    p.step input now =
      { p with peak := p.lowered input time, phase := .dropping, lastCall := now } := by
  simp [step, h, ht]

end PeakHold

end Tachometer
