import Tachometer.Binary.Arithmetic

/-! # Clock readings and spans of time

The monotonic clock counts ticks in 64 bits, a hundred to the microsecond. What is assumed of the
driver that keeps it is no more than the following. A reading is its count of ticks, so that
readings are compared, and the span between them is taken, tick by tick; a span is made from
microseconds by a multiplication by a hundred that wraps around, and its whole microseconds are a
division by a hundred that drops the rest. Nothing is assumed of successive readings: they may
repeat and go backwards.

* `Instant.since?` — the span between two readings, unless the clock went backwards.
* `Instant.since` — the same, with no time at all for a clock that went backwards.
* `Span.seconds`, `Span.ofSeconds` — a span in seconds, at microsecond resolution, and back. -/

namespace Tachometer

/-- A reading of the monotonic clock. -/
structure Instant where
  /-- Ticks since the clock started. -/
  ticks : UInt64
  deriving DecidableEq, Repr

/-- A length of time. -/
structure Span where
  /-- Length in ticks. -/
  ticks : UInt64
  deriving DecidableEq, Repr

namespace Span

instance : Zero Span := ⟨⟨0⟩⟩

instance : LE Span := ⟨fun a b => a.ticks ≤ b.ticks⟩

instance : LT Span := ⟨fun a b => a.ticks < b.ticks⟩

instance (a b : Span) : Decidable (a ≤ b) := inferInstanceAs (Decidable (a.ticks ≤ b.ticks))

instance (a b : Span) : Decidable (a < b) := inferInstanceAs (Decidable (a.ticks < b.ticks))

/-- What is left of a span after a shorter one. -/
instance : Sub Span := ⟨fun a b => ⟨a.ticks - b.ticks⟩⟩

/-- Ticks in a microsecond. -/
def ticksPerMicrosecond : UInt64 := 100

/-- The whole microseconds of a span. -/
def microseconds (d : Span) : UInt64 := d.ticks / ticksPerMicrosecond

/-- The span of a number of microseconds. -/
def ofMicroseconds (count : UInt64) : Span := ⟨count * ticksPerMicrosecond⟩

/-- The span in seconds: its whole microseconds, divided by a million. -/
def seconds (d : Span) : Binary64 :=
  .ofNat d.microseconds.toNat / .ofNat 1000000

/-- The most microseconds that fit a span. -/
def maxMicroseconds : Nat := 184467440737095516

/-- A number of seconds in whole microseconds: multiplied by a million, with a half added, and cut
off to an integer. A negative number gives none, a very large one as many as fit a span. -/
def nearestMicroseconds (seconds : Binary64) : Nat :=
  if seconds ≤ 0 then 0
  else (seconds * .ofNat 1000000 + .round false (1 / 2)).truncate maxMicroseconds

/-- The span of a number of seconds, to the microsecond. -/
def ofSeconds (seconds : Binary64) : Span :=
  .ofMicroseconds (.ofNat (nearestMicroseconds seconds))

/-- Seconds become no more microseconds than fit a span:
`nearestMicroseconds seconds ≤ maxMicroseconds`. -/
theorem nearestMicroseconds_le (seconds : Binary64) :
    nearestMicroseconds seconds ≤ maxMicroseconds := by
  unfold nearestMicroseconds
  split
  · exact Nat.zero_le _
  · exact Binary.truncate_le ..

/-- The microseconds of a span are its ticks by hundreds:
`d.microseconds.toNat = d.ticks.toNat / 100`. -/
theorem toNat_microseconds (d : Span) : d.microseconds.toNat = d.ticks.toNat / 100 := by
  simp [microseconds, ticksPerMicrosecond]

end Span

namespace Instant

/-- The span from `earlier` to `now`, if `now` is not before `earlier`. -/
def since? (now earlier : Instant) : Option Span :=
  if earlier.ticks ≤ now.ticks then some ⟨now.ticks - earlier.ticks⟩ else none

/-- The span from `earlier` to `now`. A clock that went backwards counts as no time at all. -/
def since (now earlier : Instant) : Span := (now.since? earlier).getD 0

/-- No time has passed since now: `t.since? t = some 0`. -/
@[simp] theorem since?_self (t : Instant) : t.since? t = some 0 := by
  simp [since?, Zero.zero, OfNat.ofNat]

/-- There is no span exactly when the clock went backwards:
`now.since? earlier = none ↔ now.ticks < earlier.ticks`. -/
theorem since?_eq_none_iff {now earlier : Instant} :
    now.since? earlier = none ↔ now.ticks < earlier.ticks := by
  simp [since?]

end Instant

end Tachometer
