import Tachometer.Filter.PeakHold
import Tachometer.Proofs.Clock.Ticks
import Tachometer.Proofs.Measure.Frequency

/-! # One call of a peak hold

A call takes its input as the new peak, keeps the old one, or lets it drop, but never below the
input. How far the peak drops is up to the rate; a peak with a negative rate rises.

* `PeakHold.Settings.level`, `PeakHold.Settings.dropped` — where a peak comes to when it drops.
* `PeakHold.Settings.Holds`, `PeakHold.dropTime?_cases` — when a peak is still held, and the time
  that it drops for if not.
* `PeakHold.left`, `PeakHold.peak_step_of_not_le` — what is left of a peak at a call, and what the
  call makes of it.
* `PeakHold.le_peak_step` — a call never gives less than its input.
* `PeakHold.peak_step_cases` — a call gives its input, or no more than before if dropping never
  raises the peak. -/

namespace Tachometer

namespace PeakHold

/-! ## Dropping -/

/-- The level, not yet rounded to a peak, that a peak drops to in a span of time. -/
def Settings.level (settings : Settings) (peak : Binary32) (time : Span) : Binary64 :=
  peak.convert - time.seconds * settings.rate.convert

/-- The peak that a peak drops to in a span of time. -/
def Settings.dropped (settings : Settings) (peak : Binary32) (time : Span) : Binary32 :=
  (settings.level peak time).convert

variable {settings : Settings} {peak input : Binary32} {time : Span}

/-- A finite number is finite in 64 bits: `(x.convert : Binary64).isFinite = true`. -/
theorem isFinite_wide {x : Binary32} (hx : x.isFinite = true) :
    (x.convert : Binary64).isFinite = true :=
  (Binary.isFinite_convert Format.binary32_fits_binary64 hx).1

/-- A number comes back from 64 bits as it was:
`((x.convert : Binary64).convert : Binary32) = x`. -/
@[simp] theorem narrow_wide (x : Binary32) : ((x.convert : Binary64).convert : Binary32) = x :=
  Binary.convert_convert Format.binary32_fits_binary64 x

/-- What a peak drops by is bounded: the clock ends long before a rate makes it infinite. -/
theorem drop_bounds (hrate : settings.rate.isFinite = true) (time : Span) :
    (time.seconds * (settings.rate.convert : Binary64)).isFinite = true ∧
      |(time.seconds * (settings.rate.convert : Binary64)).toRat| ≤ 2 ^ (167 : Int) := by
  obtain ⟨hseconds, hle⟩ := time.isFinite_seconds
  have hnonneg := Binary.toRat_nonneg hseconds time.seconds_nonneg
  obtain ⟨hwide, hval⟩ := Binary.isFinite_convert Format.binary32_fits_binary64 hrate
  have hlt : |settings.rate.toRat| ≤ 2 ^ (128 : Int) := by
    exact_mod_cast (Binary.abs_toRat_lt hrate).le
  rw [Binary.mul_eq_round hseconds hwide, hval]
  refine Binary.abs_round_le_two_zpow (by decide) (by decide) ?_ _
  calc |time.seconds.toRat * settings.rate.toRat|
      = time.seconds.toRat * |settings.rate.toRat| := by rw [abs_mul, abs_of_nonneg hnonneg]
    _ ≤ 2 ^ (39 : Int) * 2 ^ (128 : Int) := by gcongr
    _ = 2 ^ (167 : Int) := by norm_num

/-- At a finite rate the drop in any span of time is finite:
`(time.seconds * settings.rate.convert).isFinite = true`. -/
theorem isFinite_drop (hrate : settings.rate.isFinite = true) (time : Span) :
    (time.seconds * (settings.rate.convert : Binary64)).isFinite = true :=
  (drop_bounds hrate time).1

/-- The level of a finite peak is finite: `(settings.level peak time).isFinite = true`. -/
theorem isFinite_level (hrate : settings.rate.isFinite = true) (hpeak : peak.isFinite = true)
    (time : Span) : (settings.level peak time).isFinite = true := by
  obtain ⟨hdrop, hle⟩ := drop_bounds hrate time
  obtain ⟨hwide, hval⟩ := Binary.isFinite_convert Format.binary32_fits_binary64 hpeak
  have hlt : |peak.toRat| ≤ 2 ^ (128 : Int) := by
    exact_mod_cast (Binary.abs_toRat_lt hpeak).le
  rw [Settings.level, Binary.sub_eq_round hwide hdrop, hval]
  refine Binary.isFinite_round (k := 168) (by decide) (by decide) ?_ _
  calc |peak.toRat - (time.seconds * (settings.rate.convert : Binary64)).toRat|
      ≤ |peak.toRat| + |(time.seconds * (settings.rate.convert : Binary64)).toRat| := abs_sub _ _
    _ ≤ 2 ^ (128 : Int) + 2 ^ (167 : Int) := by gcongr
    _ ≤ 2 ^ (168 : Int) := by norm_num

/-- An infinite peak does not drop: `settings.level (.infinity s) time = .infinity s`. -/
theorem level_infinity (hrate : settings.rate.isFinite = true) (s : Bool) (time : Span) :
    settings.level (.infinity s) time = .infinity s :=
  Binary.infinity_sub s (isFinite_drop hrate time)

/-- An infinite peak does not drop: `settings.dropped (.infinity s) time = .infinity s`. -/
theorem dropped_infinity (hrate : settings.rate.isFinite = true) (s : Bool) (time : Span) :
    settings.dropped (.infinity s) time = .infinity s := by
  rw [Settings.dropped, level_infinity hrate, Binary.convert_infinity]

/-- The level that a peak drops to is a number: `settings.level peak time ≠ .nan`. -/
theorem level_ne_nan (hrate : settings.rate.isFinite = true) (hpeak : peak ≠ .nan) (time : Span) :
    settings.level peak time ≠ .nan := by
  by_cases hfin : peak.isFinite = true
  · exact Binary.sub_ne_nan (isFinite_wide hfin)
      (Binary.ne_nan_of_isFinite (isFinite_drop hrate time))
  · obtain ⟨s, rfl⟩ := Binary.eq_infinity hpeak hfin
    rw [level_infinity hrate]
    simp

/-- What a peak drops to is a number: `settings.dropped peak time ≠ .nan`. -/
theorem dropped_ne_nan (hrate : settings.rate.isFinite = true) (hpeak : peak ≠ .nan)
    (time : Span) : settings.dropped peak time ≠ .nan :=
  Binary.convert_ne_nan (level_ne_nan hrate hpeak time)

/-- What the level reaches, the peak reaches: `input ≤ settings.dropped peak time`. -/
theorem le_dropped_of_le_level (h : (input.convert : Binary64) ≤ settings.level peak time) :
    input ≤ settings.dropped peak time := by
  have hnarrow : ((input.convert : Binary64).convert : Binary32) ≤ settings.dropped peak time :=
    Binary.convert_mono h
  rwa [narrow_wide] at hnarrow

/-- What the level does not exceed, the peak does not exceed:
`settings.dropped peak time ≤ input`. -/
theorem dropped_le_of_level_le (h : settings.level peak time ≤ (input.convert : Binary64)) :
    settings.dropped peak time ≤ input := by
  have hnarrow : settings.dropped peak time ≤ ((input.convert : Binary64).convert : Binary32) :=
    Binary.convert_mono h
  rwa [narrow_wide] at hnarrow

/-- At a rate that is not negative the level does not rise:
`settings.level peak time ≤ peak.convert`. -/
theorem level_le (hrate : settings.rate.isFinite = true) (h : 0 ≤ settings.rate)
    (hpeak : peak ≠ .nan) (time : Span) : settings.level peak time ≤ peak.convert := by
  have hwide : 0 ≤ (settings.rate.convert : Binary64) := by
    simpa using (Binary.convert_mono h : (Binary.convert (0 : Binary32) : Binary64) ≤ _)
  by_cases hfin : peak.isFinite = true
  · exact Binary.sub_le_self (isFinite_wide hfin)
      (Binary.mul_nonneg time.isFinite_seconds.1 (isFinite_wide hrate) time.seconds_nonneg hwide)
  · obtain ⟨s, rfl⟩ := Binary.eq_infinity hpeak hfin
    rw [level_infinity hrate]
    exact Binary.le_refl_of_ne_nan (by simp)

/-- **Dropping at a rate that is not negative** never raises a peak:
`settings.dropped peak time ≤ peak`. -/
theorem dropped_le (hrate : settings.rate.isFinite = true) (h : 0 ≤ settings.rate)
    (hpeak : peak ≠ .nan) (time : Span) : settings.dropped peak time ≤ peak :=
  dropped_le_of_level_le (level_le hrate h hpeak time)

/-- At a rate that is not positive the level does not fall:
`(peak.convert : Binary64) ≤ settings.level peak time`. -/
theorem le_level (hrate : settings.rate.isFinite = true) (h : settings.rate ≤ 0)
    (hpeak : peak ≠ .nan) (time : Span) : (peak.convert : Binary64) ≤ settings.level peak time := by
  have hwide : (settings.rate.convert : Binary64) ≤ 0 := by
    simpa using (Binary.convert_mono h : _ ≤ (Binary.convert (0 : Binary32) : Binary64))
  by_cases hfin : peak.isFinite = true
  · exact Binary.le_sub_self (isFinite_wide hfin)
      (Binary.mul_nonpos time.isFinite_seconds.1 (isFinite_wide hrate) time.seconds_nonneg hwide)
  · obtain ⟨s, rfl⟩ := Binary.eq_infinity hpeak hfin
    rw [level_infinity hrate]
    exact Binary.le_refl_of_ne_nan (by simp)

/-- At a rate that is not positive the peak does not fall: `peak ≤ settings.dropped peak time`. -/
theorem le_dropped (hrate : settings.rate.isFinite = true) (h : settings.rate ≤ 0)
    (hpeak : peak ≠ .nan) (time : Span) : peak ≤ settings.dropped peak time :=
  le_dropped_of_le_level (le_level hrate h hpeak time)

/-- In no time the level stays at the peak, at any rate. -/
theorem level_zero (hrate : settings.rate.isFinite = true) (hpeak : peak ≠ .nan) :
    (peak.convert : Binary64) ≤ settings.level peak 0 ∧ settings.level peak 0 ≤ peak.convert := by
  by_cases hfin : peak.isFinite = true
  · have hseconds : (0 : Span).seconds = 0 := by
      decide +kernel
    have hdrop : ∃ s, (0 : Span).seconds * (settings.rate.convert : Binary64) = .signedZero s := by
      rw [hseconds, Binary.mul_eq_round Binary.isFinite_zero (isFinite_wide hrate),
        Binary.toRat_zero, zero_mul, Binary.round_zero]
      exact ⟨_, rfl⟩
    obtain ⟨s, hdrop⟩ := hdrop
    -- a zero of either sign is taken away
    have hzero := Binary.position_signedZero (f := .binary64) s
    rw [Settings.level, hdrop]
    exact ⟨Binary.le_sub_self (isFinite_wide hfin)
        ((Binary.le_iff_of_position hzero Binary.position_zero).mpr le_rfl),
      Binary.sub_le_self (isFinite_wide hfin)
        ((Binary.le_iff_of_position Binary.position_zero hzero).mpr le_rfl)⟩
  · obtain ⟨s, rfl⟩ := Binary.eq_infinity hpeak hfin
    have hrefl : (.infinity s : Binary64) ≤ .infinity s := Binary.le_refl_of_ne_nan (by simp)
    rw [level_infinity hrate]
    exact ⟨hrefl, hrefl⟩

/-- **A higher peak** does not drop below a lower one:
`settings.dropped peak time ≤ settings.dropped peak' time`. -/
theorem dropped_mono {peak' : Binary32} (hrate : settings.rate.isFinite = true) (h : peak ≤ peak')
    (time : Span) : settings.dropped peak time ≤ settings.dropped peak' time := by
  obtain ⟨hpeak, hpeak'⟩ := Binary.ne_nan_of_le h
  by_cases hfin : peak.isFinite = true
  · by_cases hfin' : peak'.isFinite = true
    · refine Binary.convert_mono (Binary.sub_le_sub_right (isFinite_wide hfin)
        (isFinite_wide hfin') (Binary.convert_mono h) ?_)
      exact Binary.ne_nan_of_isFinite (isFinite_drop hrate time)
    · obtain ⟨s, rfl⟩ := Binary.eq_infinity hpeak' hfin'
      cases s with
      | false =>
        rw [dropped_infinity hrate false]
        exact Binary.le_infinity (dropped_ne_nan hrate hpeak time)
      | true => exact absurd (Binary.eq_infinity_of_ge h ▸ hfin) (by simp [Binary.isFinite])
  · -- an infinity stays what it is, and so does what is past it
    obtain ⟨s, rfl⟩ := Binary.eq_infinity hpeak hfin
    cases s with
    | false =>
      rw [Binary.eq_infinity_of_le h]
      exact Binary.le_refl_of_ne_nan (dropped_ne_nan hrate hpeak time)
    | true =>
      rw [dropped_infinity hrate true]
      exact Binary.infinity_le (dropped_ne_nan hrate hpeak' time)

/-! ## Held peaks -/

/-- A peak that was taken at a time is still held at a time. Without a hold delay it never is. -/
def Settings.Holds (settings : Settings) (taken now : Instant) : Prop :=
  0 < settings.delay ∧
    now.ticks.toNat ≤ taken.ticks.toNat + settings.delay.ticks.toNat

variable {p : PeakHold} {taken now : Instant}

/-- A held peak does not drop: `p.dropTime? now = none`. -/
theorem dropTime?_of_holds (hphase : p.phase = .holding taken) (h : p.settings.Holds taken now) :
    p.dropTime? now = none := by
  have hheld : ¬p.settings.delay < now.since taken := by
    rw [Span.lt_iff, Instant.toNat_since_eq_sub]
    have := h.2
    omega
  rw [dropTime?, hphase]
  simp only [if_pos h.1, if_neg hheld]

/-- **Past the hold delay** a peak drops for what is left of the time since it was taken:
`p.dropTime? now = some (now.since taken - p.settings.delay)`. -/
theorem dropTime?_of_over (hphase : p.phase = .holding taken) (hdelay : 0 < p.settings.delay)
    (h : taken.ticks.toNat + p.settings.delay.ticks.toNat < now.ticks.toNat) :
    p.dropTime? now = some (now.since taken - p.settings.delay) := by
  have hover : p.settings.delay < now.since taken := by
    rw [Span.lt_iff, Instant.toNat_since_eq_sub]
    omega
  rw [dropTime?, hphase]
  simp only [if_pos hdelay, if_pos hover]

/-- That is the time that the delay has been over. -/
theorem exists_dropTime?_of_over (hphase : p.phase = .holding taken) (hdelay : 0 < p.settings.delay)
    (h : taken.ticks.toNat + p.settings.delay.ticks.toNat < now.ticks.toNat) :
    ∃ time, p.dropTime? now = some time ∧
      taken.ticks.toNat + p.settings.delay.ticks.toNat + time.ticks.toNat = now.ticks.toNat :=
  ⟨_, dropTime?_of_over hphase hdelay h, (Instant.toNat_since_sub h.le).2⟩

/-- Without a hold delay a peak drops for the time since the last call, as it does when it is
dropping already: `p.dropTime? now = some (now.since p.lastCall)`. -/
theorem dropTime?_of_not_held (h : p.phase = .dropping ∨ ¬0 < p.settings.delay) :
    p.dropTime? now = some (now.since p.lastCall) := by
  rw [dropTime?]
  split
  case h_1 => rfl
  case h_2 since hphase =>
    rw [if_neg (h.resolve_left (by rw [hphase]; simp))]

/-- **The time that a peak drops for**: none while it is held, then the time that the hold delay has
been over, and the time since the last call where there is no delay to wait for. -/
theorem dropTime?_cases (p : PeakHold) (now : Instant) :
    (∃ taken, p.phase = .holding taken ∧ p.settings.Holds taken now ∧ p.dropTime? now = none) ∨
      (∃ taken time, p.phase = .holding taken ∧ p.dropTime? now = some time ∧
        0 < time.ticks.toNat ∧
        taken.ticks.toNat + p.settings.delay.ticks.toNat + time.ticks.toNat = now.ticks.toNat) ∨
      ((p.phase = .dropping ∨ ¬0 < p.settings.delay) ∧
        p.dropTime? now = some (now.since p.lastCall)) := by
  cases hphase : p.phase with
  | dropping => exact .inr (.inr ⟨.inl rfl, dropTime?_of_not_held (.inl hphase)⟩)
  | holding taken =>
    by_cases hdelay : 0 < p.settings.delay
    · rcases Nat.lt_or_ge (taken.ticks.toNat + p.settings.delay.ticks.toNat) now.ticks.toNat
        with hover | hnow
      · obtain ⟨time, htime, hsum⟩ := exists_dropTime?_of_over hphase hdelay hover
        exact .inr (.inl ⟨taken, time, rfl, htime, by omega, hsum⟩)
      · have hholds : p.settings.Holds taken now := ⟨hdelay, hnow⟩
        exact .inl ⟨taken, rfl, hholds, dropTime?_of_holds hphase hholds⟩
    · exact .inr (.inr ⟨.inr hdelay, dropTime?_of_not_held (.inr hdelay)⟩)

/-- **A peak is left alone** only if it is held. -/
theorem holds_of_dropTime?_eq_none (h : p.dropTime? now = none) :
    ∃ taken, p.phase = .holding taken ∧ p.settings.Holds taken now := by
  obtain ⟨taken, hphase, hholds, -⟩ | ⟨_, time, -, htime, -⟩ | ⟨-, htime⟩ := dropTime?_cases p now
  · exact ⟨taken, hphase, hholds⟩
  · exact absurd (h.symm.trans htime) (by simp)
  · exact absurd (h.symm.trans htime) (by simp)

/-! ## Calls -/

/-- A peak that would drop below the input becomes the input: `p.lowered input time = input`. -/
theorem lowered_of_lt (h : p.settings.level p.peak time < input.convert) :
    p.lowered input time = input := if_pos h

/-- A peak that stays above the input drops freely:
`p.lowered input time = p.settings.dropped p.peak time`. -/
theorem lowered_of_not_lt (h : ¬p.settings.level p.peak time < input.convert) :
    p.lowered input time = p.settings.dropped p.peak time := if_neg h

/-- Nothing is below what is not a number, so an input above the level is one: `input ≠ .nan`. -/
theorem input_ne_nan_of_level_lt (h : p.settings.level p.peak time < input.convert) :
    input ≠ .nan := by
  rintro rfl
  exact (Binary.ne_nan_of_le (Binary.le_of_lt h)).2 rfl

/-- **A peak that drops** comes to the larger of what is left of it and the input. -/
theorem lowered_sameValue (hrate : p.settings.rate.isFinite = true) (hpeak : p.peak ≠ .nan)
    (input : Binary32) (time : Span) :
    (p.lowered input time).sameValue
      (Binary.larger (p.settings.dropped p.peak time) input) = true := by
  by_cases hlevel : p.settings.level p.peak time < input.convert
  · rw [lowered_of_lt hlevel,
      Binary.larger_of_le (dropped_le_of_level_le (Binary.le_of_lt hlevel))]
    exact Binary.sameValue_self (input_ne_nan_of_level_lt hlevel)
  · -- the level is compared in the wider format, and is at the input or above it
    rw [lowered_of_not_lt hlevel]
    by_cases hinput : input = .nan
    · rw [Binary.larger_of_not_le fun hle => (Binary.ne_nan_of_le hle).2 hinput]
      exact Binary.sameValue_self (dropped_ne_nan hrate hpeak time)
    · rw [Binary.not_lt (level_ne_nan hrate hpeak time) (Binary.convert_ne_nan hinput)] at hlevel
      exact Binary.sameValue_larger (le_dropped_of_le_level hlevel)

/-- What is left of a peak at a call: all of it while it is held. -/
def left (p : PeakHold) (now : Instant) : Binary32 :=
  (p.dropTime? now).elim p.peak (p.settings.dropped p.peak)

/-- All of a held peak is left: `p.left now = p.peak`. -/
theorem left_of_dropTime?_eq_none (h : p.dropTime? now = none) : p.left now = p.peak := by
  rw [left, h, Option.elim_none]

/-- Of a peak that drops is left what it drops to: `p.left now = p.settings.dropped p.peak time`. -/
theorem left_of_dropTime?_eq_some (h : p.dropTime? now = some time) :
    p.left now = p.settings.dropped p.peak time := by
  rw [left, h, Option.elim_some]

/-- What is left of a peak is a number: `p.left now ≠ .nan`. -/
theorem left_ne_nan (hrate : p.settings.rate.isFinite = true) (hpeak : p.peak ≠ .nan)
    (now : Instant) : p.left now ≠ .nan := by
  cases htime : p.dropTime? now with
  | none =>
    rw [left_of_dropTime?_eq_none htime]
    exact hpeak
  | some time =>
    rw [left_of_dropTime?_eq_some htime]
    exact dropped_ne_nan hrate hpeak time

/-- **A call below the peak** gives the larger of what is left of the peak and its input. -/
theorem peak_step_of_not_le (hrate : p.settings.rate.isFinite = true) (hpeak : p.peak ≠ .nan)
    (h : ¬p.peak ≤ input) (now : Instant) :
    (p.step input now).peak.sameValue (Binary.larger (p.left now) input) = true := by
  cases htime : p.dropTime? now with
  | none =>
    rw [step_of_dropTime?_eq_none h htime, left_of_dropTime?_eq_none htime,
      Binary.larger_of_not_le h]
    exact Binary.sameValue_self hpeak
  | some time =>
    rw [step_of_dropTime?_eq_some h htime, left_of_dropTime?_eq_some htime]
    exact lowered_sameValue hrate hpeak input time

/-- **Where nothing is lost** of the peak, any call gives the larger of its input and the result
before it. -/
theorem peak_step_of_left (hrate : p.settings.rate.isFinite = true)
    (hleft : (p.left now).sameValue p.peak = true) (input : Binary32) :
    (p.step input now).peak.sameValue (Binary.larger p.peak input) = true := by
  obtain ⟨hle, hge⟩ := Binary.le_of_sameValue hleft
  by_cases h : p.peak ≤ input
  · rw [step_of_peak_le h, Binary.larger_of_le h]
    exact Binary.sameValue_self (Binary.ne_nan_of_le h).2
  · obtain ⟨hlow, hhigh⟩ :=
      Binary.le_of_sameValue (peak_step_of_not_le hrate (Binary.ne_nan_of_le hge).1 h now)
    exact Binary.sameValue_of_le_of_le
      (Binary.le_trans hlow (Binary.larger_mono_left hle input))
      (Binary.le_trans (Binary.larger_mono_left hge input) hhigh)

/-- **A call gives a number**, whatever its input is: `(p.step input now).peak ≠ .nan`. -/
theorem peak_step_ne_nan (hrate : p.settings.rate.isFinite = true) (hpeak : p.peak ≠ .nan)
    (input : Binary32) (now : Instant) : (p.step input now).peak ≠ .nan := by
  by_cases h : p.peak ≤ input
  · rw [step_of_peak_le h]
    exact (Binary.ne_nan_of_le h).2
  · exact (Binary.ne_nan_of_le
      (Binary.le_of_sameValue (peak_step_of_not_le hrate hpeak h now)).1).1

/-- **No call gives less than its input.** `input ≤ (p.step input now).peak`. -/
theorem le_peak_step (hrate : p.settings.rate.isFinite = true) (hpeak : p.peak ≠ .nan)
    (hinput : input ≠ .nan) (now : Instant) : input ≤ (p.step input now).peak := by
  by_cases h : p.peak ≤ input
  · rw [step_of_peak_le h]
    exact Binary.le_refl_of_ne_nan hinput
  · exact Binary.le_trans (Binary.le_larger_right (left_ne_nan hrate hpeak now) hinput)
      (Binary.le_of_sameValue (peak_step_of_not_le hrate hpeak h now)).2

/-- **No call gives more than its input or the peak before**, if the peak is not raised by
dropping. -/
theorem peak_step_cases (hpeak : p.peak ≠ .nan) {now : Instant}
    (hdrop : ¬p.peak ≤ input → ∀ time, p.dropTime? now = some time →
      p.settings.dropped p.peak time ≤ p.peak) :
    ((p.step input now).peak = input ∧ input ≠ .nan) ∨ (p.step input now).peak ≤ p.peak := by
  by_cases h : p.peak ≤ input
  · exact .inl ⟨by rw [step_of_peak_le h], (Binary.ne_nan_of_le h).2⟩
  · cases ht : p.dropTime? now with
    | none =>
      rw [step_of_dropTime?_eq_none h ht]
      exact .inr (Binary.le_refl_of_ne_nan hpeak)
    | some time =>
      rw [step_of_dropTime?_eq_some h ht]
      by_cases hlevel : p.settings.level p.peak time < input.convert
      · exact .inl ⟨lowered_of_lt hlevel, input_ne_nan_of_level_lt hlevel⟩
      · refine .inr ?_
        show p.lowered input time ≤ p.peak
        rw [lowered_of_not_lt hlevel]
        exact hdrop h time ht

/-- The last call of a run is a step from the run before it:
`p.run (calls ++ [call]) = (p.run calls).step call.1 call.2`. -/
theorem run_concat (p : PeakHold) (calls : List (Binary32 × Instant)) (call : Binary32 × Instant) :
    p.run (calls ++ [call]) = (p.run calls).step call.1 call.2 := by
  rw [run, run, List.foldl_append, List.foldl_cons, List.foldl_nil]

end PeakHold

end Tachometer
