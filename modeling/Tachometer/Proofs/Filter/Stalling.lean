import Tachometer.Proofs.Binary.Halfway
import Tachometer.Proofs.Filter.Highest
import Tachometer.Proofs.Filter.Settings

/-! # When a drop is lost in rounding

A peak is kept in the smaller format, and what it has dropped to is rounded to that format at every
call. So a peak that is dropping comes out lower only if it drops at least half-way to the next
lower number; if not, the call leaves it where it was, and so does every later call after the same
time.

* `PeakHold.Settings.Lowers` — when dropping for some time lowers a peak.
* `PeakHold.Settings.dropped_lt_iff` — what is left of a peak is less than the peak exactly then.
* `PeakHold.peak_step_lt_iff` — so it is for a call, and `PeakHold.peak_step_run_lt_iff` for one at
  any point of a run.
* `PeakHold.run_of_not_lowers` — a row of calls that are too close to each other. -/

namespace Tachometer

namespace PeakHold

variable {settings : Settings} {peak input : Binary32} {p : PeakHold} {time : Span}
  {calls : List (Binary32 × Instant)}

/-! ## One drop -/

/-- Dropping for a span of time lowers a peak: the level is below the middle between the peak and
the next lower number, or in the middle and the peak is odd, so that the even neighbour is
nearest. -/
def Settings.Lowers (settings : Settings) (peak : Binary32) (time : Span) : Prop :=
  ∃ place, peak.position = some place ∧
    ((settings.level peak time).toRat < Format.binary32.halfBelow place ∨
      (settings.level peak time).toRat = Format.binary32.halfBelow place ∧ place % 2 = 1)

/-- **A drop shows** when it goes past the middle to the next lower number. -/
theorem Settings.dropped_lt_iff (hrate : settings.rate.isFinite = true)
    (hpeak : peak.isFinite = true) (time : Span) :
    settings.dropped peak time < peak ↔ settings.Lowers peak time := by
  have hlevel := isFinite_level hrate hpeak time
  obtain ⟨place, hplace⟩ := Binary.exists_position (Binary.ne_nan_of_isFinite hpeak)
  rw [Settings.dropped, Binary.convert_of_isFinite hlevel, Binary.round_lt_iff _ hpeak hplace]
  constructor
  · intro h
    exact ⟨place, hplace, h⟩
  · rintro ⟨other, hother, h⟩
    obtain rfl := Option.some.inj (hplace.symm.trans hother)
    exact h

/-! ## Calls -/

/-- **One call** below a peak that is dropping. -/
theorem peak_step_lt_iff (hrate : p.settings.rate.isFinite = true) (hpeak : p.peak.isFinite = true)
    (hphase : p.phase = .dropping) (hinput : input < p.peak) (now : Instant) :
    (p.step input now).peak < p.peak ↔
      p.settings.Lowers p.peak (now.since p.lastCall) := by
  have hne := Binary.ne_nan_of_isFinite hpeak
  have hbelow : ¬p.peak ≤ input :=
    (Binary.not_le hne (Binary.ne_nan_of_le (Binary.le_of_lt hinput)).1).mpr hinput
  obtain ⟨hlow, hhigh⟩ := Binary.le_of_sameValue (peak_step_of_not_le hrate hne hbelow now)
  rw [left_of_dropTime?_eq_some (dropTime?_of_not_held (.inl hphase))] at hlow hhigh
  calc (p.step input now).peak < p.peak
      ↔ Binary.larger (p.settings.dropped p.peak (now.since p.lastCall)) input < p.peak :=
        ⟨Binary.lt_of_le_of_lt hhigh, Binary.lt_of_le_of_lt hlow⟩
    _ ↔ p.settings.dropped p.peak (now.since p.lastCall) < p.peak := Binary.larger_lt_iff hinput
    _ ↔ p.settings.Lowers p.peak (now.since p.lastCall) :=
        Settings.dropped_lt_iff hrate hpeak _

/-- Finite inputs make finite peaks: `((start settings created).run calls).peak.isFinite = true`. -/
theorem isFinite_peak_run (hrate : settings.rate.isFinite = true) (hnonneg : 0 ≤ settings.rate)
    (created : Instant) (hinputs : ∀ call ∈ calls, call.1.isFinite = true) :
    ((start settings created).run calls).peak.isFinite = true := by
  have hhighest : (highest (calls.map Prod.fst)).isFinite = true := by
    rcases List.mem_cons.mp (highest_mem (calls.map Prod.fst)) with hzero | hmem
    · rw [hzero]
      rfl
    · obtain ⟨call, hcall, heq⟩ := List.mem_map.mp hmem
      rw [← heq]
      exact hinputs call hcall
  have hle := peak_run_le_highest hrate hnonneg created calls
  rcases List.eq_nil_or_concat calls with rfl | ⟨earlier, call, rfl⟩
  · rfl
  · -- the last input is below the peak, and the highest one above
    rw [List.concat_eq_append] at hinputs hhighest hle ⊢
    rw [run_concat] at hle ⊢
    have hlast := hinputs call (List.mem_append_right _ (List.mem_singleton_self call))
    refine Binary.isFinite_of_between hlast hhighest ?_ hle
    exact le_peak_step (by rwa [settings_run]) (peak_run_ne_nan hrate created earlier)
      (Binary.ne_nan_of_isFinite hlast) call.2

/-- **Which calls lower the peak.** At any point of a run with finite inputs where the peak is
dropping, a call below it lowers it exactly when the drop since the last call shows. -/
theorem peak_step_run_lt_iff (hrate : settings.rate.isFinite = true) (hnonneg : 0 ≤ settings.rate)
    (created : Instant) (hinputs : ∀ call ∈ calls, call.1.isFinite = true)
    (hphase : ((start settings created).run calls).phase = .dropping)
    (hinput : input < ((start settings created).run calls).peak) (now : Instant) :
    (((start settings created).run calls).step input now).peak <
        ((start settings created).run calls).peak ↔
      settings.Lowers ((start settings created).run calls).peak
        (now.since ((start settings created).run calls).lastCall) := by
  have hpeak := isFinite_peak_run hrate hnonneg created hinputs
  have hsettings : ((start settings created).run calls).settings = settings := settings_run ..
  have hcall := peak_step_lt_iff (by rwa [hsettings]) hpeak hphase hinput now
  rwa [hsettings] at hcall

/-- A peak of a thousand with a rate of two per second that has dropped for a second: a second later
it is lower, a microsecond later it is not. -/
theorem peak_step_run_lt_iff_thousand :
    let settings : Settings := ⟨.ofNat 2, ⟨50000000⟩⟩
    let calls : List (Binary32 × Instant) := [(.ofNat 1000, ⟨0⟩), (0, ⟨150000000⟩)]
    let before := (start settings ⟨0⟩).run calls
    settings.rate.isFinite = true ∧ 0 ≤ settings.rate ∧
      (∀ call ∈ calls, call.1.isFinite = true) ∧ before.phase = .dropping ∧ 0 < before.peak ∧
      settings.Lowers before.peak ⟨100000000⟩ ∧ ¬settings.Lowers before.peak ⟨100⟩ := by
  intro settings calls before
  have hrate : settings.rate.isFinite = true := by decide +kernel
  have hnonneg : 0 ≤ settings.rate := by decide +kernel
  have hinputs : ∀ call ∈ calls, call.1.isFinite = true := by decide +kernel
  have hphase : before.phase = .dropping := by decide +kernel
  have hinput : 0 < before.peak := by decide +kernel
  have hsecond : (⟨250000000⟩ : Instant).since before.lastCall = ⟨100000000⟩ := by decide +kernel
  have hmicrosecond : (⟨150000100⟩ : Instant).since before.lastCall = ⟨100⟩ := by decide +kernel
  have hiff := peak_step_run_lt_iff hrate hnonneg ⟨0⟩ hinputs hphase hinput
  have hlower := (hiff ⟨250000000⟩).mp (by decide +kernel)
  have hsame := mt (hiff ⟨150000100⟩).mpr (by decide +kernel)
  rw [hsecond] at hlower
  rw [hmicrosecond] at hsame
  exact ⟨hrate, hnonneg, hinputs, hphase, hinput, hlower, hsame⟩

/-! ## Rows of calls -/

/-- Calls each of which comes after the one before it by the same time. -/
def Spaced (time : Span) : Instant → List (Binary32 × Instant) → Prop
  | _, [] => True
  | last, call :: calls => call.2.since last = time ∧ Spaced time call.2 calls

/-- A call that does not lower a positive peak leaves it as it is. -/
theorem peak_step_of_not_lowers (hrate : p.settings.rate.isFinite = true)
    (hnonneg : 0 ≤ p.settings.rate) (hpeak : p.peak.isFinite = true) (hpos : 0 < p.peak)
    (hphase : p.phase = .dropping) (hinput : input < p.peak) {now : Instant}
    (hlost : ¬p.settings.Lowers p.peak (now.since p.lastCall)) :
    (p.step input now).peak = p.peak ∧ (p.step input now).phase = .dropping := by
  have hne := Binary.ne_nan_of_isFinite hpeak
  have hbelow : ¬p.peak ≤ input :=
    (Binary.not_le hne (Binary.ne_nan_of_le (Binary.le_of_lt hinput)).1).mpr hinput
  -- the call does not raise the peak, and it does not lower it
  have hle := peak_step_le hrate hnonneg hne input now
  rw [Binary.larger_of_not_le hbelow] at hle
  have hge := mt (peak_step_lt_iff hrate hpeak hphase hinput now).mp hlost
  rw [Binary.not_lt (Binary.ne_nan_of_le hle).1 hne] at hge
  refine ⟨(Binary.eq_of_le_of_le hpos hge hle).symm, ?_⟩
  rw [step_of_dropTime?_eq_some hbelow (dropTime?_of_not_held (.inl hphase))]

/-- **A row of calls.** If a drop for the time between two calls is lost, all of them are: calls
below a positive peak that follow each other after that time never lower it. -/
theorem run_of_not_lowers (hrate : p.settings.rate.isFinite = true)
    (hnonneg : 0 ≤ p.settings.rate) (hpeak : p.peak.isFinite = true) (hpos : 0 < p.peak)
    (hphase : p.phase = .dropping) (hlost : ¬p.settings.Lowers p.peak time)
    (hspaced : Spaced time p.lastCall calls) (hinputs : ∀ call ∈ calls, call.1 < p.peak) :
    (p.run calls).peak = p.peak ∧ (p.run calls).phase = .dropping := by
  -- each call leaves the peak, the phase and the settings as the next one needs them
  induction calls generalizing p with
  | nil => exact ⟨rfl, hphase⟩
  | cons call calls ih =>
    obtain ⟨htime, hrest⟩ := hspaced
    obtain ⟨hinput, hinputs⟩ := List.forall_mem_cons.mp hinputs
    rw [← htime] at hlost
    obtain ⟨hsame, hdropping⟩ :=
      peak_step_of_not_lowers hrate hnonneg hpeak hpos hphase hinput hlost
    rw [htime] at hlost
    have hrun := ih (p := p.step call.1 call.2)
    rw [settings_step, lastCall_step, hsame] at hrun
    exact hrun hrate hnonneg hpeak hpos hdropping hlost hrest hinputs

/-! ## Settings that do not always lower a peak -/

/-- Every call that comes a microsecond or more after the last one, with an input below the peak,
lowers a peak that is dropping; at any point of any run with finite inputs. -/
def Settings.AlwaysLowers (settings : Settings) : Prop :=
  ∀ (created : Instant) (calls : List (Binary32 × Instant)) (input : Binary32) (now : Instant),
    (∀ call ∈ calls, call.1.isFinite = true) → input.isFinite = true →
    ((start settings created).run calls).phase = .dropping →
    ((start settings created).run calls).lastCall.ticks.toNat +
      Span.ticksPerMicrosecond.toNat ≤ now.ticks.toNat →
    input < ((start settings created).run calls).peak →
    (((start settings created).run calls).step input now).peak <
      ((start settings created).run calls).peak

/-- The settings for a drop of two per second after half a second do not: a peak of a thousand that
has dropped to 998 is still there a microsecond later. -/
theorem not_alwaysLowers_twoPerSecond :
    Settings.ofText? "2.0,0.5" = some ⟨.ofNat 2, ⟨50000000⟩⟩ ∧ 0 < (.ofNat 2 : Binary32) ∧
      ¬Settings.AlwaysLowers ⟨.ofNat 2, ⟨50000000⟩⟩ := by
  refine ⟨by decide +kernel, by decide +kernel, ?_⟩
  intro h
  have hlower := h ⟨0⟩ [(.ofNat 1000, ⟨0⟩), (0, ⟨150000000⟩)] 0 ⟨150000100⟩ (by decide +kernel)
    (by decide +kernel) (by decide +kernel) (by decide +kernel) (by decide +kernel)
  revert hlower
  decide +kernel

end PeakHold

end Tachometer
