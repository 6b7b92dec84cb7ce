import Tachometer.Proofs.Filter.Settings

/-! # Hold delays in range

Ticks are counted in 64 bits, which the ticks of a long delay could leave at the top and the time
past a delay at the bottom. Neither happens: a delay is cut off at as many microseconds as fit, and
it is taken only from a longer time.

* `PeakHold.DelayCounts` — a peak hold whose delay is a count of microseconds, and its next call.
* `PeakHold.delayCounts_of_ticks` — every delay with a hundred times as many ticks.
* `PeakHold.delays_inRange` — the delay of every accepted text, with the conversion to microseconds
  that it comes from. -/

namespace Tachometer.PeakHold

variable {p : PeakHold} {count : Nat}

/-- A peak hold whose delay is a count of microseconds. A call below a held peak finds it in its
delay or past it as natural numbers tell, in which nothing wraps around; only a call that finds it
past the delay takes the delay away from anything. -/
structure DelayCounts (p : PeakHold) (count : Nat) : Prop where
  /-- The delay has a hundred ticks for each microsecond. -/
  ticks_delay : p.settings.delay.ticks.toNat = 100 * count
  /-- The count can be read off it. -/
  microseconds_delay : p.settings.delay.microseconds.toNat = count
  /-- A call at any time in the delay leaves a held peak alone. -/
  step_held : ∀ (taken : Instant) (input : Binary32) (now : Instant),
    p.phase = .holding taken → ¬p.peak ≤ input → 0 < count →
    now.ticks.toNat ≤ taken.ticks.toNat + 100 * count →
      p.step input now = { p with lastCall := now }
  /-- A call at any time past the delay takes the delay from a time that is no shorter, and makes
  the peak drop for what is left of it. -/
  step_past : ∀ (taken : Instant) (input : Binary32) (now : Instant),
    p.phase = .holding taken → ¬p.peak ≤ input → 0 < count →
    taken.ticks.toNat + 100 * count < now.ticks.toNat →
      let time := now.since taken - p.settings.delay
      p.settings.delay ≤ now.since taken ∧
        taken.ticks.toNat + 100 * count + time.ticks.toNat = now.ticks.toNat ∧
        p.step input now =
          { p with peak := p.lowered input time, phase := .dropping, lastCall := now }

/-- **A delay of whole microseconds** that fits 64 bits of ticks counts as natural numbers do. -/
theorem delayCounts_of_ticks (h : p.settings.delay.ticks.toNat = 100 * count) :
    DelayCounts p count := by
  have hpos : 0 < count → 0 < p.settings.delay := by
    intro hcount
    rw [Span.lt_iff, h]
    exact Nat.mul_pos (by decide) hcount
  refine ⟨h, Span.toNat_microseconds_of_ticks h, ?_, ?_⟩
  · intro taken input now hphase hbelow hcount hnow
    have hholds : p.settings.Holds taken now := ⟨hpos hcount, by rwa [h]⟩
    exact step_of_dropTime?_eq_none hbelow (dropTime?_of_holds hphase hholds)
  · intro taken input now hphase hbelow hcount hnow
    rw [← h] at hnow ⊢
    obtain ⟨hle, hsum⟩ := Instant.toNat_since_sub hnow.le
    exact ⟨hle, hsum,
      step_of_dropTime?_eq_some hbelow (dropTime?_of_over hphase (hpos hcount) hnow)⟩

/-- **Monotone and in range.** More seconds never have fewer microseconds, and these stay between
none and the most that fit. So the delay of every accepted text has exactly the ticks of its
microseconds, and in no later call does the time past it wrap around. -/
theorem delays_inRange :
    Span.Clamps Span.nearestMicroseconds ((2 ^ 64 - 1) / 100) ∧
      ∀ (text : String) (now : Instant) (p : PeakHold),
        Kind.peakHold.read (some text) now = .ok p →
          ∃ rate delay, Settings.Stated text.toList rate delay ∧
            ∀ calls, DelayCounts (p.run calls) (Span.nearestMicroseconds delay) := by
  refine ⟨Span.clamps_nearestMicroseconds, ?_⟩
  intro text now p hread
  obtain ⟨rate, delay, hstated, hfresh⟩ := Settings.read_eq_ok_iff.mp hread
  refine ⟨rate, delay, hstated, fun calls => delayCounts_of_ticks ?_⟩
  rw [settings_run, Settings.fresh_iff.mp hfresh, settings_start]
  exact Span.toNat_ofSeconds delay

/-- The longest delay there is, from a number of seconds that has no finite number of microseconds.
It still runs out: a peak taken at the third tick drops for twelve ticks at the last one. -/
theorem delays_inRange_longest :
    let p := start ⟨.ofNat 1, ⟨18446744073709551600⟩⟩ ⟨7⟩
    let q := p.run [(.ofNat 5, ⟨3⟩)]
    let last : Instant := ⟨18446744073709551615⟩
    Kind.peakHold.read (some "1,1e308") ⟨7⟩ = .ok p ∧
      q.phase = .holding ⟨3⟩ ∧ ¬q.peak ≤ .ofNat 1 ∧
      q.step (.ofNat 1) last =
        { q with peak := q.lowered (.ofNat 1) ⟨12⟩, phase := .dropping, lastCall := last } ∧
      Span.nearestMicroseconds (.round false (7 / 10)) ≤
        Span.nearestMicroseconds (.round false (10 ^ 308)) := by
  intro p q last
  have hread : Kind.peakHold.read (some "1,1e308") ⟨7⟩ = .ok p := by
    decide +kernel
  have hphase : q.phase = .holding ⟨3⟩ := by
    decide +kernel
  have hbelow : ¬q.peak ≤ .ofNat 1 := by
    decide +kernel
  obtain ⟨hclamps, haccepted⟩ := delays_inRange
  obtain ⟨rate, delay, -, hcounts⟩ := haccepted "1,1e308" ⟨7⟩ p hread
  have hrun : DelayCounts q (Span.nearestMicroseconds delay) := hcounts _
  have hticks : 18446744073709551600 = 100 * Span.nearestMicroseconds delay :=
    (hcounts []).ticks_delay
  obtain ⟨-, -, hstep⟩ := hrun.step_past ⟨3⟩ (.ofNat 1) last hphase hbelow (by omega)
    (by rw [← hticks]; decide)
  have htime : last.since ⟨3⟩ - q.settings.delay = ⟨12⟩ := by
    decide +kernel
  rw [htime] at hstep
  exact ⟨hread, hphase, hbelow, hstep,
    hclamps.mono _ _ (by decide +kernel) (by decide +kernel) (by decide +kernel)⟩

end Tachometer.PeakHold
