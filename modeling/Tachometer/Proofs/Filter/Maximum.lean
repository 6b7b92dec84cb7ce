import Tachometer.Proofs.Filter.Highest
import Tachometer.Proofs.Filter.HoldWindow

/-! # Peaks as maxima

With one of its two settings at zero a peak hold has no phases to speak of. Without a hold delay a
call gives the larger of its input and what is left of the peak, and higher inputs give no lower
results. At a rate of zero what is left is all of the peak, and a run gives the highest input.

* `PeakHold.peak_step_of_delay_eq_zero` — one call without a delay.
* `PeakHold.Beneath`, `PeakHold.Beneath.step`, `PeakHold.Beneath.run` — two peak holds, one of which
  has the lower inputs.
* `PeakHold.run_leaks` — runs without a delay.
* `PeakHold.left_of_rate_zero`, `PeakHold.peak_run_of_rate_zero` — calls and runs at a rate of
  zero. -/

namespace Tachometer

namespace PeakHold

variable {p q : PeakHold} {settings : Settings} {input input' : Binary32}
  {calls calls' : List (Binary32 × Instant)}

/-! ## No delay -/

/-- **One call without a hold delay** gives the larger of its input and what is left of the peak,
whatever the phase is. -/
theorem peak_step_of_delay_eq_zero (hrate : p.settings.rate.isFinite = true)
    (hnonneg : 0 ≤ p.settings.rate) (hdelay : p.settings.delay = 0) (hpeak : p.peak ≠ .nan)
    (input : Binary32) (now : Instant) :
    (p.step input now).peak.sameValue
      (Binary.larger (p.settings.dropped p.peak (now.since p.lastCall)) input) = true := by
  by_cases hle : p.peak ≤ input
  · -- a new peak: what is left of the old one is no higher
    have hleft := Binary.le_trans (dropped_le hrate hnonneg hpeak (now.since p.lastCall)) hle
    rw [step_of_peak_le hle, Binary.larger_of_le hleft]
    exact Binary.sameValue_self (Binary.ne_nan_of_le hle).2
  · -- no delay to wait for: the peak drops from the last call on, in either phase
    have hzero : ¬0 < p.settings.delay := by
      rw [hdelay]
      decide
    have hcall := peak_step_of_not_le hrate hpeak hle now
    rwa [left_of_dropTime?_eq_some (dropTime?_of_not_held (.inr hzero))] at hcall

/-- A peak hold is beneath another that has the same settings and was called at the same time if its
peak is no higher. -/
structure Beneath (p q : PeakHold) : Prop where
  /-- Both have the same settings. -/
  settings_eq : p.settings = q.settings
  /-- Both were called last at the same time. -/
  lastCall_eq : p.lastCall = q.lastCall
  /-- The peak of the first is no higher. -/
  peak_le : p.peak ≤ q.peak

/-- **One call of each.** Without a hold delay a call with a higher input keeps the other peak hold
beneath, even if the two are in different phases. -/
theorem Beneath.step (h : Beneath p q) (hrate : p.settings.rate.isFinite = true)
    (hnonneg : 0 ≤ p.settings.rate) (hdelay : p.settings.delay = 0) (hinput : input ≤ input')
    (now : Instant) : Beneath (p.step input now) (q.step input' now) := by
  have hleft := dropped_mono hrate h.peak_le (now.since p.lastCall)
  have hlarger := Binary.larger_mono hleft hinput
  obtain ⟨hpeak, hpeak'⟩ := Binary.ne_nan_of_le h.peak_le
  have hlow := peak_step_of_delay_eq_zero hrate hnonneg hdelay hpeak input now
  rw [h.settings_eq] at hrate hnonneg hdelay
  have hhigh := peak_step_of_delay_eq_zero hrate hnonneg hdelay hpeak' input' now
  rw [← h.settings_eq, ← h.lastCall_eq] at hhigh
  refine ⟨?_, ?_, ?_⟩
  · rw [settings_step, settings_step, h.settings_eq]
  · rw [lastCall_step, lastCall_step]
  · calc (p.step input now).peak
        ≤ Binary.larger (p.settings.dropped p.peak (now.since p.lastCall)) input :=
          (Binary.le_of_sameValue hlow).1
      _ ≤ Binary.larger (p.settings.dropped q.peak (now.since p.lastCall)) input' := hlarger
      _ ≤ (q.step input' now).peak := (Binary.le_of_sameValue hhigh).2

/-- At a rate that is not negative and without a hold delay, calls at the same times with inputs
that are no higher keep a peak hold beneath the other: `Beneath (p.run calls) (q.run calls')`. -/
theorem Beneath.run (h : Beneath p q) (hrate : p.settings.rate.isFinite = true)
    (hnonneg : 0 ≤ p.settings.rate) (hdelay : p.settings.delay = 0)
    (hcalls : List.Forall₂ (fun call call' => call.2 = call'.2 ∧ call.1 ≤ call'.1) calls calls') :
    Beneath (p.run calls) (q.run calls') := by
  -- along both rows of calls at once, with `Beneath` as the invariant
  induction hcalls generalizing p q with
  | nil => exact h
  | cons hcall _ ih =>
    obtain ⟨htime, hinput⟩ := hcall
    rw [run_cons, run_cons, ← htime]
    exact ih (h.step hrate hnonneg hdelay hinput _) (by rwa [settings_step])
      (by rwa [settings_step]) (by rwa [settings_step])

/-- **A leaky maximum.** Without a hold delay a run starts at zero, and each call gives the larger
of its input and what is left of the result before it after the time since the last call. So of two
runs at the same times the one with the higher inputs gives the higher results. -/
theorem run_leaks (hrate : settings.rate.isFinite = true) (hnonneg : 0 ≤ settings.rate)
    (hdelay : settings.delay = 0) (created : Instant) :
    ((start settings created).run []).peak = 0 ∧
      (∀ (calls : List (Binary32 × Instant)) (input : Binary32) (now : Instant),
        let before := ((start settings created).run calls).peak
        let elapsed :=
          now.since ((created :: calls.map Prod.snd).getLast (List.cons_ne_nil _ _))
        let left : Binary32 :=
          (before.convert - elapsed.seconds * settings.rate.convert : Binary64).convert
        ((start settings created).run (calls ++ [(input, now)])).peak.sameValue
          (Binary.larger left input) = true) ∧
      ∀ calls calls' : List (Binary32 × Instant),
        List.Forall₂ (fun call call' => call.2 = call'.2 ∧ call.1 ≤ call'.1) calls calls' →
        ((start settings created).run calls).peak ≤ ((start settings created).run calls').peak := by
  refine ⟨rfl, ?_, ?_⟩
  · intro calls input now before elapsed left
    have hsettings : ((start settings created).run calls).settings = settings := settings_run ..
    have hcall := peak_step_of_delay_eq_zero (by rwa [hsettings]) (by rwa [hsettings])
      (by rwa [hsettings]) (peak_run_ne_nan hrate created calls) input now
    rw [hsettings, lastCall_run] at hcall
    rw [run_concat]
    exact hcall
  · -- a peak hold is beneath itself, so the two runs start as they should
    intro calls calls' hcalls
    have hself : Beneath (start settings created) (start settings created) :=
      ⟨rfl, rfl, Binary.le_refl_of_ne_nan Binary.zero_ne_nan⟩
    exact (hself.run hrate hnonneg hdelay hcalls).peak_le

/-- A rate of ten per second: a peak of ten that meets an input of six after a second and one of
three half a second before that, and the same with a higher last input. -/
theorem run_leaks_twoRuns :
    let settings : Settings := ⟨.ofNat 10, 0⟩
    let calls : List (Binary32 × Instant) := [(.ofNat 10, ⟨100000000⟩), (.ofNat 6, ⟨200000000⟩)]
    let lower := calls ++ [(.ofNat 3, ⟨150000000⟩)]
    let higher := calls ++ [(.ofNat 8, ⟨150000000⟩)]
    settings.rate.isFinite = true ∧ 0 ≤ settings.rate ∧ settings.delay = 0 ∧
      ((start settings ⟨0⟩).run lower).peak.sameValue (.ofNat 6) = true ∧
      List.Forall₂ (fun call call' => call.2 = call'.2 ∧ call.1 ≤ call'.1) lower higher ∧
      ((start settings ⟨0⟩).run lower).peak ≤ ((start settings ⟨0⟩).run higher).peak := by
  intro settings calls lower higher
  have hrate : settings.rate.isFinite = true := by decide +kernel
  have hnonneg : 0 ≤ settings.rate := by decide +kernel
  have hcalls : List.Forall₂ (fun call call' => call.2 = call'.2 ∧ call.1 ≤ call'.1)
      lower higher := by
    refine .cons ?_ (.cons ?_ (.cons ?_ .nil)) <;> decide +kernel
  obtain ⟨-, hcall, hmono⟩ := run_leaks hrate hnonneg rfl ⟨0⟩
  have hvalue := hcall calls (.ofNat 3) ⟨150000000⟩
  have hlarger : Binary.larger
      (settings.dropped ((start settings ⟨0⟩).run calls).peak 0) (.ofNat 3) = .ofNat 6 := by
    decide +kernel
  exact ⟨hrate, hnonneg, rfl, hlarger ▸ hvalue, hcalls, hmono lower higher hcalls⟩

/-! ## No rate -/

/-- A rate of zero is finite, whatever its sign: `p.settings.rate.isFinite = true`. -/
theorem isFinite_of_rate_zero (hrate : p.settings.rate.sameValue 0 = true) :
    p.settings.rate.isFinite = true := by
  obtain ⟨hnonpos, hnonneg⟩ := Binary.le_of_sameValue hrate
  exact Binary.isFinite_of_between Binary.isFinite_zero Binary.isFinite_zero hnonneg hnonpos

/-- At a rate of zero nothing is lost of a peak: `(p.left now).sameValue p.peak = true`. -/
theorem left_of_rate_zero (hrate : p.settings.rate.sameValue 0 = true) (hpeak : p.peak ≠ .nan)
    (now : Instant) : (p.left now).sameValue p.peak = true := by
  obtain ⟨hnonpos, hnonneg⟩ := Binary.le_of_sameValue hrate
  have hfin := isFinite_of_rate_zero hrate
  cases htime : p.dropTime? now with
  | none =>
    rw [left_of_dropTime?_eq_none htime]
    exact Binary.sameValue_self hpeak
  | some time =>
    rw [left_of_dropTime?_eq_some htime]
    exact Binary.sameValue_of_le_of_le (dropped_le hfin hnonneg hpeak time)
      (le_dropped hfin hnonpos hpeak time)

/-- **A running maximum.** At a rate of zero, of either sign, every run from the start gives the
highest input so far, whatever the hold delay and the times are. -/
theorem peak_run_of_rate_zero (hrate : settings.rate.sameValue 0 = true) (created : Instant)
    (calls : List (Binary32 × Instant)) :
    ((start settings created).run calls).peak.sameValue (highest (calls.map Prod.fst)) = true := by
  induction calls using List.reverseRecOn with
  | nil => exact Binary.sameValue_self Binary.zero_ne_nan
  | append_singleton calls call ih =>
    -- equal values need not be the same number: the zeros differ, so both bounds are carried on
    obtain ⟨hle, hge⟩ := Binary.le_of_sameValue ih
    have hzero : ((start settings created).run calls).settings.rate.sameValue 0 = true := by
      rwa [settings_run]
    have hcall := peak_step_of_left (isFinite_of_rate_zero hzero)
      (left_of_rate_zero hzero (Binary.ne_nan_of_le hle).1 call.2) call.1
    obtain ⟨hlow, hhigh⟩ := Binary.le_of_sameValue hcall
    rw [run_concat, List.map_append, List.map_singleton, highest_concat]
    exact Binary.sameValue_of_le_of_le
      (Binary.le_trans hlow (Binary.larger_mono_left hle call.1))
      (Binary.le_trans (Binary.larger_mono_left hge call.1) hhigh)

/-- At a rate of minus zero, after half a second: 42 is held for a day, through a call without a
value. -/
theorem peak_run_of_rate_zero_day :
    let settings : Settings := ⟨.signedZero true, ⟨50000000⟩⟩
    let calls : List (Binary32 × Instant) :=
      [(.ofNat 42, ⟨0⟩), (.nan, ⟨1000000000⟩), (.ofNat 1, ⟨8640000000000⟩)]
    settings.rate.sameValue 0 = true ∧
      ((start settings ⟨0⟩).run calls).peak.sameValue (.ofNat 42) = true := by
  intro settings calls
  have hrate : settings.rate.sameValue 0 = true := by decide +kernel
  have hhighest : highest (calls.map Prod.fst) = .ofNat 42 := by decide +kernel
  exact ⟨hrate, hhighest ▸ peak_run_of_rate_zero hrate ⟨0⟩ calls⟩

end PeakHold

end Tachometer
