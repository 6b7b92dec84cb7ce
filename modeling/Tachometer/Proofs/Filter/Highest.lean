import Tachometer.Proofs.Filter.PeakHold

/-! # The highest input so far

At a rate that is not negative a peak lies between the last input and the highest one, whatever the
inputs are and in whatever order the times of the calls come. Infinities are inputs like any other,
and an input that is not a number is below no peak and above none.

* `PeakHold.highest` — the highest input of a run, or zero.
* `PeakHold.peak_step_le` — one call gives at most the larger of its input and the result before.
* `PeakHold.peak_run_le_highest` — so a run gives at most the highest input.
* `PeakHold.run_between` — both bounds at every point of a run, and what the phase says. -/

namespace Tachometer

namespace PeakHold

/-! ## The highest input -/

/-- The highest of some inputs and zero; inputs that are not a number do not count. -/
def highest (inputs : List Binary32) : Binary32 := inputs.foldl Binary.larger 0

/-- Before any input the highest is zero, as the peak is: `highest [] = 0`. -/
@[simp] theorem highest_nil : highest [] = 0 := rfl

/-- A further input is compared with the highest so far:
`highest (inputs ++ [input]) = Binary.larger (highest inputs) input`. -/
@[simp] theorem highest_concat (inputs : List Binary32) (input : Binary32) :
    highest (inputs ++ [input]) = Binary.larger (highest inputs) input := by
  rw [highest, List.foldl_append, List.foldl_cons, List.foldl_nil, highest]

/-- The highest input is a number, since what is none is never larger: `highest inputs ≠ .nan`. -/
theorem highest_ne_nan (inputs : List Binary32) : highest inputs ≠ .nan := by
  induction inputs using List.reverseRecOn with
  | nil => exact Binary.zero_ne_nan
  | append_singleton inputs input ih =>
    rw [highest_concat]
    exact (Binary.ne_nan_of_le (Binary.le_larger_left ih input)).2

/-- No input is higher, and neither is zero: `input ≤ highest inputs`. -/
theorem le_highest {inputs : List Binary32} {input : Binary32} (hmem : input ∈ 0 :: inputs)
    (hinput : input ≠ .nan) : input ≤ highest inputs := by
  induction inputs using List.reverseRecOn with
  | nil =>
    rw [List.mem_singleton.mp hmem]
    exact Binary.le_refl_of_ne_nan Binary.zero_ne_nan
  | append_singleton inputs last ih =>
    rw [highest_concat]
    rw [← List.cons_append, List.mem_append] at hmem
    rcases hmem with hmem | hmem
    · exact Binary.le_trans (ih hmem) (Binary.le_larger_left (highest_ne_nan inputs) last)
    · rw [List.mem_singleton.mp hmem] at hinput ⊢
      exact Binary.le_larger_right (highest_ne_nan inputs) hinput

/-- The highest input is an input, or zero: `highest inputs ∈ 0 :: inputs`. -/
theorem highest_mem (inputs : List Binary32) : highest inputs ∈ 0 :: inputs := by
  induction inputs using List.reverseRecOn with
  | nil => exact List.mem_singleton_self 0
  | append_singleton inputs last ih =>
    rw [highest_concat, Binary.larger, ← List.cons_append]
    split
    · exact List.mem_append_right _ (List.mem_singleton_self last)
    · exact List.mem_append_left _ ih

/-! ## One call -/

variable {p : PeakHold} {settings : Settings} {input : Binary32}

/-- **One call** at a rate that is not negative gives at most the larger of its input and the result
before it: `(p.step input now).peak ≤ Binary.larger p.peak input`. -/
theorem peak_step_le (hrate : p.settings.rate.isFinite = true) (hnonneg : 0 ≤ p.settings.rate)
    (hpeak : p.peak ≠ .nan) (input : Binary32) (now : Instant) :
    (p.step input now).peak ≤ Binary.larger p.peak input := by
  have hdrop : ¬p.peak ≤ input → ∀ time, p.dropTime? now = some time →
      p.settings.dropped p.peak time ≤ p.peak :=
    fun _ time _ => dropped_le hrate hnonneg hpeak time
  obtain ⟨heq, hinput⟩ | hle := peak_step_cases hpeak hdrop
  · rw [heq]
    exact Binary.le_larger_right hpeak hinput
  · exact Binary.le_trans hle (Binary.le_larger_left hpeak input)

/-- Only a peak that is dropping comes out lower than it was:
`(p.step input now).phase = .dropping`. -/
theorem phase_step_of_peak_lt {now : Instant} (h : (p.step input now).peak < p.peak) :
    (p.step input now).phase = .dropping := by
  by_cases hle : p.peak ≤ input
  · rw [step_of_peak_le hle] at h
    exact absurd (Binary.lt_of_lt_of_le h hle) (Binary.lt_irrefl input)
  · cases htime : p.dropTime? now with
    | none =>
      rw [step_of_dropTime?_eq_none hle htime] at h
      exact absurd h (Binary.lt_irrefl p.peak)
    | some time => rw [step_of_dropTime?_eq_some hle htime]

/-! ## Runs -/

/-- At a finite rate every peak is a number: `((start settings created).run calls).peak ≠ .nan`. -/
theorem peak_run_ne_nan (hrate : settings.rate.isFinite = true) (created : Instant)
    (calls : List (Binary32 × Instant)) : ((start settings created).run calls).peak ≠ .nan := by
  induction calls using List.reverseRecOn with
  | nil => exact Binary.zero_ne_nan
  | append_singleton calls call ih =>
    rw [run_concat]
    exact peak_step_ne_nan (by rwa [settings_run]) ih call.1 call.2

/-- **A run** from the start gives at most its highest input. -/
theorem peak_run_le_highest (hrate : settings.rate.isFinite = true) (hnonneg : 0 ≤ settings.rate)
    (created : Instant) (calls : List (Binary32 × Instant)) :
    ((start settings created).run calls).peak ≤ highest (calls.map Prod.fst) := by
  induction calls using List.reverseRecOn with
  | nil => exact Binary.le_refl_of_ne_nan Binary.zero_ne_nan
  | append_singleton calls call ih =>
    rw [run_concat, List.map_append, List.map_singleton, highest_concat]
    calc (((start settings created).run calls).step call.1 call.2).peak
        ≤ Binary.larger ((start settings created).run calls).peak call.1 :=
          peak_step_le (by rwa [settings_run]) (by rwa [settings_run])
            (peak_run_ne_nan hrate created calls) call.1 call.2
      _ ≤ Binary.larger (highest (calls.map Prod.fst)) call.1 := Binary.larger_mono_left ih call.1

/-- **Between the last input and the highest.** At every point of a run from the start, at a rate
that is not negative, a call gives a number; no less than its input; no more than the larger of its
input and the result before it, and than the highest input so far. It takes an input that is no
lower than the peak as a new peak, and a lower result means that the peak is dropping. An input that
is not a number does not raise it. -/
theorem run_between (hrate : settings.rate.isFinite = true) (hnonneg : 0 ≤ settings.rate)
    (created : Instant) (calls : List (Binary32 × Instant)) (input : Binary32) (now : Instant) :
    let before := (start settings created).run calls
    let after := before.step input now
    after.peak ≠ .nan ∧
      (input ≠ .nan → input ≤ after.peak) ∧
      after.peak ≤ Binary.larger before.peak input ∧
      after.peak ≤ highest (calls.map Prod.fst ++ [input]) ∧
      (before.peak ≤ input → after.phase = .holding now) ∧
      (after.peak < before.peak → after.phase = .dropping) ∧
      (input = .nan → after.peak ≤ before.peak) := by
  intro before after
  have hbefore : before.peak ≠ .nan := peak_run_ne_nan hrate created calls
  have hsettings : before.settings = settings := settings_run ..
  have hrate' : before.settings.rate.isFinite = true := hsettings ▸ hrate
  have hle : after.peak ≤ Binary.larger before.peak input :=
    peak_step_le hrate' (hsettings ▸ hnonneg) hbefore input now
  refine ⟨peak_step_ne_nan hrate' hbefore input now, ?_, hle, ?_, ?_, phase_step_of_peak_lt, ?_⟩
  · intro hinput
    exact le_peak_step hrate' hbefore hinput now
  · have hrun := peak_run_le_highest hrate hnonneg created (calls ++ [(input, now)])
    rwa [run_concat, List.map_append, List.map_singleton] at hrun
  · intro htop
    show (before.step input now).phase = .holding now
    rw [step_of_peak_le htop]
  · rintro rfl
    rwa [Binary.larger_of_not_le fun h => (Binary.ne_nan_of_le h).2 rfl] at hle

/-- A peak of ten that drops through a call without a value: its next input and the highest one so
far are around it. -/
theorem run_between_missingInput :
    let settings : Settings := ⟨.ofNat 1, 0⟩
    let calls : List (Binary32 × Instant) := [(.ofNat 10, ⟨100000000⟩), (.nan, ⟨300000000⟩)]
    let before := (start settings ⟨0⟩).run calls
    let after := before.step (.ofNat 4) ⟨400000000⟩
    settings.rate.isFinite = true ∧ 0 ≤ settings.rate ∧ after.peak < before.peak ∧
      .ofNat 4 ≤ after.peak ∧ after.peak ≤ .ofNat 10 ∧ after.phase = .dropping := by
  intro settings calls before after
  have hrate : settings.rate.isFinite = true := by decide +kernel
  have hnonneg : 0 ≤ settings.rate := by decide +kernel
  have hlower : after.peak < before.peak := by decide +kernel
  have hhighest : highest (calls.map Prod.fst ++ [.ofNat 4]) = .ofNat 10 := by decide +kernel
  obtain ⟨-, hinput, -, hle, -, hphase, -⟩ :=
    run_between hrate hnonneg ⟨0⟩ calls (.ofNat 4) ⟨400000000⟩
  rw [hhighest] at hle
  exact ⟨hrate, hnonneg, hlower, hinput (by decide +kernel), hle, hphase hlower⟩

end PeakHold

end Tachometer
