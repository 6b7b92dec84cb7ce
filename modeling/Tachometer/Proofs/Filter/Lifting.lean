import Tachometer.Proofs.Filter.PeakHold
import Tachometer.Proofs.Measure.Pace
import Tachometer.Proofs.Relay.Targets

/-! # When dropping lifts a peak

A peak hold that is fed by a sampler gives frequencies between the last one measured and the
highest one measured, unless the time that a peak drops for makes it higher. That takes a negative
rate, and one that is not lost in rounding: the settings say whether it can happen.

* `PeakHold.Sampled` — the calls that a sampler makes.
* `PeakHold.Settings.NeverLifts` — no measured peak comes out of its first drop higher than it was.
* `PeakHold.Enveloped` — a target between the last input and the highest.
* `PeakHold.enveloped_iff_neverLifts` — the targets of all sampled calls are enveloped exactly when
  the settings never lift a peak. -/

namespace Tachometer

namespace PeakHold

/-! ## Sampled calls -/

/-- The calls that a sampler makes which was made at `created`. Each comes at the end of a window of
the usual length at least, has the frequency of some pulses in it, and opens the next window. The
last one was opened at the given time. -/
inductive Sampled (created : Instant) : List (Binary32 × Instant) → Instant → Prop
  | nil : Sampled created [] created
  | concat {calls : List (Binary32 × Instant)} {opened now : Instant} {window : Span}
      (h : Sampled created calls opened) (hwindow : now.since? opened = some window)
      (hlength : Sampler.usualLength ≤ window) (pulses : UInt32) :
      Sampled created (calls ++ [(Sampler.signalOver window pulses, now)]) now

/-- A window has the usual length at least if it has a hundred million ticks:
`Sampler.usualLength ≤ window ↔ 100000000 ≤ window.ticks.toNat`. -/
theorem usualLength_le_iff {window : Span} :
    Sampler.usualLength ≤ window ↔ 100000000 ≤ window.ticks.toNat := UInt64.le_iff_toNat_le

/-- A window of the usual length has a microsecond at least: `0 < window.microseconds`. -/
theorem microseconds_pos {window : Span} (h : Sampler.usualLength ≤ window) :
    0 < window.microseconds := by
  rw [usualLength_le_iff] at h
  rw [Sampler.microseconds_pos_iff]
  omega

namespace Sampled

variable {created opened : Instant} {calls : List (Binary32 × Instant)}

/-- The open window was not opened before the sampler was made:
`created.ticks.toNat ≤ opened.ticks.toNat`. -/
theorem created_le (h : Sampled created calls opened) :
    created.ticks.toNat ≤ opened.ticks.toNat := by
  induction h with
  | nil => exact le_rfl
  | concat h hwindow hlength pulses ih =>
    have hsum := Instant.since?_eq_some_iff.mp hwindow
    omega

/-- What a sampler feeds to a filter is finite and not negative:
`∀ call ∈ calls, call.1.isFinite = true ∧ 0 ≤ call.1`. -/
theorem input_bounds (h : Sampled created calls opened) :
    ∀ call ∈ calls, call.1.isFinite = true ∧ 0 ≤ call.1 := by
  induction h with
  | nil => simp
  | concat h hwindow hlength pulses ih =>
    intro call hcall
    rcases List.mem_append.mp hcall with hcall | hcall
    · exact ih call hcall
    · obtain rfl := List.mem_singleton.mp hcall
      exact ⟨Sampler.isFinite_signalOver (microseconds_pos hlength) pulses,
        Sampler.signalOver_nonneg (microseconds_pos hlength) pulses⟩

/-- No call was made after the open window was opened:
`∀ call ∈ calls, call.2.ticks.toNat ≤ opened.ticks.toNat`. -/
theorem time_le (h : Sampled created calls opened) :
    ∀ call ∈ calls, call.2.ticks.toNat ≤ opened.ticks.toNat := by
  induction h with
  | nil => simp
  | concat h hwindow hlength pulses ih =>
    have hsum := Instant.since?_eq_some_iff.mp hwindow
    intro call hcall
    rcases List.mem_append.mp hcall with hcall | hcall
    · have := ih call hcall
      omega
    · obtain rfl := List.mem_singleton.mp hcall
      exact le_rfl

/-- The times of the calls do not decrease. -/
theorem sorted (h : Sampled created calls opened) :
    (calls.map Prod.snd).Pairwise fun a b => a.ticks.toNat ≤ b.ticks.toNat := by
  induction h with
  | nil => exact .nil
  | concat h hwindow hlength pulses ih =>
    have hsum := Instant.since?_eq_some_iff.mp hwindow
    rw [List.map_append, List.pairwise_append]
    refine ⟨ih, List.pairwise_singleton .., ?_⟩
    intro time htime now hnow
    obtain ⟨call, hcall, rfl⟩ := List.mem_map.mp htime
    obtain rfl := List.mem_singleton.mp hnow
    have := h.time_le call hcall
    show call.2.ticks.toNat ≤ _
    omega

/-- The last call was made when the open window was opened:
`opened = ((calls.getLast?).map Prod.snd).getD created`. -/
theorem opened_eq (h : Sampled created calls opened) :
    opened = ((calls.getLast?).map Prod.snd).getD created := by
  cases h with
  | nil => rfl
  | concat h hwindow hlength pulses => simp

end Sampled

/-! ## Settings that never lift a peak -/

/-- No measured peak comes out of its first drop higher than it was, as far as the clock runs: not
for any number of pulses, window and time past the hold delay that a sampler can come to. -/
def Settings.NeverLifts (settings : Settings) (created : Instant) : Prop :=
  ∀ (pulses : UInt32) (window time : Span), pulses ≠ 0 → Sampler.usualLength ≤ window →
    0 < time.ticks.toNat →
    Sampler.usualLength.ticks.toNat ≤ settings.delay.ticks.toNat + time.ticks.toNat →
    created.ticks.toNat + window.ticks.toNat + settings.delay.ticks.toNat + time.ticks.toNat <
      2 ^ 64 →
    settings.dropped (Sampler.signalOver window pulses) time ≤ Sampler.signalOver window pulses

/-- Dropping at a rate that is not negative never lifts a peak. -/
theorem Settings.neverLifts_of_rate_nonneg {settings : Settings}
    (hrate : settings.rate.isFinite = true) (h : 0 ≤ settings.rate) (created : Instant) :
    settings.NeverLifts created := by
  intro pulses window time _ hlength _ _ _
  exact dropped_le hrate h
    (Binary.ne_nan_of_isFinite (Sampler.isFinite_signalOver (microseconds_pos hlength) pulses)) time

/-! ## Between the last input and the highest -/

/-- A target is at least the last input and at most some input. -/
def Enveloped (inputs : List Binary32) (target : Binary64) : Prop :=
  (∀ input, inputs.getLast? = some input → input.convert ≤ target) ∧
    ∃ input ∈ inputs, target ≤ input.convert

/-- A peak between two inputs is a usable target between them. -/
theorem usable_between {low peak high : Binary32} (hlow : low.isFinite = true) (hnonneg : 0 ≤ low)
    (hhigh : high.isFinite = true) (h : low ≤ peak) (h' : peak ≤ high) :
    (low.convert : Binary64) ≤ usable peak.convert ∧
      usable peak.convert ≤ (high.convert : Binary64) := by
  have hwide : ∀ {x y : Binary32}, x ≤ y → (x.convert : Binary64) ≤ y.convert := Binary.convert_mono
  have hzero : ∀ {x : Binary32}, 0 ≤ x → (0 : Binary64) ≤ x.convert := by
    intro x hx
    simpa using (Binary.convert_mono hx : (Binary.convert (0 : Binary32) : Binary64) ≤ _)
  obtain ⟨heq, -, -⟩ | ⟨heq, hnot⟩ := usable_eq peak.convert
  · rw [heq]
    exact ⟨hwide h, hwide h'⟩
  · -- the peak is finite, so it can only be zero, and so is all that is no higher
    have hfin : (peak.convert : Binary64).isFinite = true :=
      isFinite_wide (Binary.isFinite_of_between hlow hhigh h h')
    have hle : (peak.convert : Binary64) ≤ 0 :=
      (Binary.not_lt Binary.zero_ne_nan (Binary.ne_nan_of_isFinite hfin)).mp
        fun hlt => hnot ⟨hfin, hlt⟩
    rw [heq]
    exact ⟨Binary.le_trans (hwide h) hle, hzero (Binary.le_trans hnonneg (Binary.le_trans h h'))⟩

/-- An input is a target that is enveloped at once. -/
theorem enveloped_concat_self (inputs : List Binary32) {input : Binary32}
    (hfin : input.isFinite = true) (hnonneg : 0 ≤ input) :
    Enveloped (inputs ++ [input]) (usable input.convert) := by
  have hrefl := Binary.le_refl_of_ne_nan (Binary.ne_nan_of_isFinite hfin)
  have hbetween := usable_between hfin hnonneg hfin hrefl hrefl
  refine ⟨?_, input, List.mem_append_right _ (List.mem_singleton_self _), hbetween.2⟩
  intro last hlast
  rw [List.getLast?_concat] at hlast
  obtain rfl := Option.some.inj hlast
  exact hbetween.1

/-! ## A bounded peak -/

/-- How a peak stands to the inputs so far. -/
structure Bounded (p : PeakHold) (inputs : List Binary32) : Prop where
  /-- The peak is finite. -/
  isFinite : p.peak.isFinite = true
  /-- Before the first input the peak is zero. -/
  peak_eq_zero : inputs = [] → p.peak = 0
  /-- The peak is no lower than the last input. -/
  le_peak : ∀ input, inputs.getLast? = some input → input ≤ p.peak
  /-- The peak is no higher than some input. -/
  peak_le : inputs ≠ [] → ∃ input ∈ inputs, p.peak ≤ input

namespace Bounded

variable {p : PeakHold} {inputs : List Binary32} {input : Binary32} {now : Instant}

/-- Before the first input the peak is bounded: `Bounded (start settings created) []`. -/
theorem start (settings : Settings) (created : Instant) : Bounded (start settings created) [] where
  isFinite := rfl
  peak_eq_zero := fun _ => rfl
  le_peak := by simp
  peak_le := by simp

/-- **One call.** If dropping does not lift the peak, a call leaves it between its input and some
input. -/
theorem step (h : Bounded p inputs) (hinputs : ∀ input ∈ inputs, input.isFinite = true)
    (hrate : p.settings.rate.isFinite = true) (hfin : input.isFinite = true) (hnonneg : 0 ≤ input)
    (hdrop : ¬p.peak ≤ input → ∀ time, p.dropTime? now = some time →
      p.settings.dropped p.peak time ≤ p.peak) :
    Bounded (p.step input now) (inputs ++ [input]) := by
  have hinput := Binary.ne_nan_of_isFinite hfin
  have hpeak := Binary.ne_nan_of_isFinite h.isFinite
  -- the input is a lower bound in any case, the upper one depends on what the peak was
  have hlow := le_peak_step hrate hpeak hinput now
  have hhigh : ∃ high ∈ inputs ++ [input], (p.step input now).peak ≤ high := by
    have hlast : input ∈ inputs ++ [input] := by
      simp
    obtain ⟨heq, -⟩ | hle := peak_step_cases hpeak hdrop
    · exact ⟨input, hlast, by rw [heq]; exact Binary.le_refl_of_ne_nan hinput⟩
    · by_cases hnil : inputs = []
      · -- the first input: the peak was zero, and so is no higher
        rw [h.peak_eq_zero hnil] at hle
        exact ⟨input, hlast, Binary.le_trans hle hnonneg⟩
      · obtain ⟨high, hmem, hhigh⟩ := h.peak_le hnil
        exact ⟨high, List.mem_append_left _ hmem, Binary.le_trans hle hhigh⟩
  refine ⟨?_, by simp, ?_, fun _ => hhigh⟩
  · obtain ⟨high, hmem, hle⟩ := hhigh
    refine Binary.isFinite_of_between hfin ?_ hlow hle
    rcases List.mem_append.mp hmem with hmem | hmem
    · exact hinputs high hmem
    · rwa [List.mem_singleton.mp hmem]
  · intro last hlast
    obtain rfl : input = last := by
      simpa using hlast
    exact hlow

/-- A bounded peak is an enveloped target. -/
theorem enveloped (h : Bounded p inputs)
    (hinputs : ∀ input ∈ inputs, input.isFinite = true ∧ 0 ≤ input) (hne : inputs ≠ []) :
    Enveloped inputs (usable p.peak.convert) := by
  obtain ⟨high, hmem, hhigh⟩ := h.peak_le hne
  have hlow : ∀ low, inputs.getLast? = some low →
      (low.convert : Binary64) ≤ usable p.peak.convert ∧
        usable p.peak.convert ≤ (high.convert : Binary64) := by
    intro low hlast
    obtain ⟨hfin, hnonneg⟩ := hinputs low (List.mem_of_getLast? hlast)
    exact usable_between hfin hnonneg (hinputs high hmem).1 (h.le_peak low hlast) hhigh
  refine ⟨fun low hlast => (hlow low hlast).1, high, hmem, ?_⟩
  exact (hlow _ (List.getLast?_eq_some_getLast hne)).2

end Bounded

/-! ## A peak and the time it was taken -/

/-- A peak is the signal of some pulses in a window that was over when the peak was taken, and if
it is dropping, the hold delay after that is over too. -/
structure Taken (p : PeakHold) (created opened : Instant) (pulses : UInt32) (window : Span)
    (taken : Instant) : Prop where
  /-- The peak is a signal. -/
  peak_eq : p.peak = Sampler.signalOver window pulses
  /-- Its window was long enough. -/
  length : Sampler.usualLength ≤ window
  /-- Its window was opened after the sampler was made. -/
  created_le : created.ticks.toNat + window.ticks.toNat ≤ taken.ticks.toNat
  /-- The peak was not taken after the last call. -/
  taken_le : taken.ticks.toNat ≤ opened.ticks.toNat
  /-- The peak is held since, or the hold delay is over. -/
  phase_eq : p.phase = .holding taken ∨
    p.phase = .dropping ∧
      taken.ticks.toNat + p.settings.delay.ticks.toNat ≤ opened.ticks.toNat

namespace Taken

variable {p : PeakHold} {created opened now taken : Instant} {pulses : UInt32}
  {window gap time : Span}

/-- **The time a peak drops for** lies after the hold delay and before the call. -/
theorem dropTime (h : Taken p created opened pulses window taken) (hlast : p.lastCall = opened)
    (hgap : now.since? opened = some gap) (hlength : Sampler.usualLength ≤ gap)
    (htime : p.dropTime? now = some time) :
    0 < time.ticks.toNat ∧
      Sampler.usualLength.ticks.toNat ≤ p.settings.delay.ticks.toNat + time.ticks.toNat ∧
      taken.ticks.toNat + p.settings.delay.ticks.toNat + time.ticks.toNat ≤ now.ticks.toNat := by
  have hle := h.taken_le
  have hsum := Instant.since?_eq_some_iff.mp hgap
  have husual : Sampler.usualLength.ticks.toNat = 100000000 := rfl
  rw [usualLength_le_iff] at hlength
  -- a held peak drops from the end of the hold delay on, a dropping one from the last call on
  obtain ⟨_, -, -, hnone⟩ | ⟨since, rest, hphase, hsome, hpos, htotal⟩ | ⟨hheld, hsome⟩ :=
    dropTime?_cases p now
  · exact absurd (hnone.symm.trans htime) (by simp)
  · obtain rfl := Option.some.inj (hsome.symm.trans htime)
    have hsince : since = taken := by
      simpa [hphase] using h.phase_eq
    rw [hsince] at htotal
    omega
  · have hover : taken.ticks.toNat + p.settings.delay.ticks.toNat ≤ opened.ticks.toNat := by
      rcases h.phase_eq with hphase | ⟨-, hover⟩
      · have hdelay := Span.not_pos_iff.mp (hheld.resolve_left (by rw [hphase]; simp))
        omega
      · exact hover
    have hcall := Instant.toNat_since (show opened.ticks.toNat ≤ now.ticks.toNat by omega)
    rw [hlast] at hsome
    obtain rfl := Option.some.inj (hsome.symm.trans htime)
    omega

/-- A peak that was taken in time is not lifted by settings that never lift one:
`p.settings.dropped p.peak time ≤ p.peak`. -/
theorem dropped_le (h : Taken p created opened pulses window taken)
    (hlifts : p.settings.NeverLifts created) (hlast : p.lastCall = opened)
    (hgap : now.since? opened = some gap) (hlength : Sampler.usualLength ≤ gap)
    (hpeak : ¬p.peak ≤ 0) (htime : p.dropTime? now = some time) :
    p.settings.dropped p.peak time ≤ p.peak := by
  obtain ⟨hpos, hsecond, hnow⟩ := h.dropTime hlast hgap hlength htime
  have hcreated := h.created_le
  have hbound := now.ticks.toNat_lt
  rw [h.peak_eq] at hpeak ⊢
  refine hlifts pulses window time ?_ h.length hpos hsecond (by omega)
  rintro rfl
  rw [Sampler.signalOver_zero (microseconds_pos h.length)] at hpeak
  exact hpeak (Binary.le_refl_of_ne_nan Binary.zero_ne_nan)

/-- An input that is no lower than the peak is taken at the call. -/
theorem of_peak_le {p : PeakHold} (hcreated : created.ticks.toNat ≤ opened.ticks.toNat)
    (hgap : now.since? opened = some gap) (hlength : Sampler.usualLength ≤ gap)
    (hle : p.peak ≤ Sampler.signalOver gap pulses) :
    Taken (p.step (Sampler.signalOver gap pulses) now) created now pulses gap now := by
  have hsum := Instant.since?_eq_some_iff.mp hgap
  rw [step_of_peak_le hle]
  exact ⟨rfl, hlength, by omega, le_rfl, .inl rfl⟩

/-- **One call at a rate that is not positive.** A peak that dropping neither lifts nor lowers
stays what it is until an input replaces it. -/
theorem step (h : Taken p created opened pulses window taken)
    (hrate : p.settings.rate.isFinite = true) (hneg : p.settings.rate ≤ 0)
    (hlifts : p.settings.NeverLifts created) (hlast : p.lastCall = opened)
    (hgap : now.since? opened = some gap) (hlength : Sampler.usualLength ≤ gap)
    (pulses' : UInt32) :
    ∃ pulses window taken,
      Taken (p.step (Sampler.signalOver gap pulses') now) created now pulses window taken := by
  have hsum := Instant.since?_eq_some_iff.mp hgap
  have hcreated := h.created_le
  have htaken := h.taken_le
  have hfin := Sampler.isFinite_signalOver (microseconds_pos hlength) pulses'
  have hnonneg := Sampler.signalOver_nonneg (microseconds_pos hlength) pulses'
  have hpeakfin : p.peak.isFinite = true := by
    rw [h.peak_eq]
    exact Sampler.isFinite_signalOver (microseconds_pos h.length) pulses
  by_cases hle : p.peak ≤ Sampler.signalOver gap pulses'
  · exact ⟨pulses', gap, now, of_peak_le (by omega) hgap hlength hle⟩
  have hlt : Sampler.signalOver gap pulses' < p.peak :=
    (Binary.not_le (Binary.ne_nan_of_isFinite hpeakfin) (Binary.ne_nan_of_isFinite hfin)).mp hle
  refine ⟨pulses, window, taken, ?_⟩
  cases htime : p.dropTime? now with
  | none =>
    rw [step_of_dropTime?_eq_none hle htime]
    refine ⟨h.peak_eq, h.length, h.created_le, by omega, h.phase_eq.imp_right ?_⟩
    rintro ⟨hphase, hover⟩
    refine ⟨hphase, ?_⟩
    show taken.ticks.toNat + p.settings.delay.ticks.toNat ≤ now.ticks.toNat
    omega
  | some time =>
    have hpos : 0 < p.peak := Binary.lt_of_le_of_lt hnonneg hlt
    have hpeak : ¬p.peak ≤ 0 := (Binary.not_le (Binary.ne_nan_of_isFinite hpeakfin)
      Binary.zero_ne_nan).mpr hpos
    have hover := (h.dropTime hlast hgap hlength htime).2.2
    -- the drop gives the same value, and both are positive
    have hne := Binary.ne_nan_of_isFinite hpeakfin
    have hsame : p.settings.dropped p.peak time = p.peak :=
      (Binary.eq_of_le_of_le hpos (le_dropped hrate hneg hne time)
        (h.dropped_le hlifts hlast hgap hlength hpeak htime)).symm
    have hlevel : ¬p.settings.level p.peak time <
        ((Sampler.signalOver gap pulses').convert : Binary64) := by
      rw [Binary.not_lt (level_ne_nan hrate hne time)
        (Binary.convert_ne_nan (Binary.ne_nan_of_isFinite hfin))]
      exact Binary.le_trans (Binary.convert_mono (Binary.le_of_lt hlt))
        (le_level hrate hneg hne time)
    rw [step_of_dropTime?_eq_some hle htime, lowered_of_not_lt hlevel, hsame]
    refine ⟨h.peak_eq, h.length, h.created_le, by omega, .inr ⟨rfl, ?_⟩⟩
    show taken.ticks.toNat + p.settings.delay.ticks.toNat ≤ now.ticks.toNat
    omega

end Taken

/-! ## Sampled runs -/

/-- How a peak hold stands to the sampled calls that were made to it. -/
structure Tracks (p : PeakHold) (created : Instant) (calls : List (Binary32 × Instant))
    (opened : Instant) : Prop where
  /-- The peak is bounded by the inputs. -/
  bounded : Bounded p (calls.map Prod.fst)
  /-- The open window was opened at the last call. -/
  lastCall_eq : p.lastCall = opened
  /-- At a rate that is not positive the peak is one that was taken. -/
  taken : p.settings.rate ≤ 0 → calls ≠ [] →
    ∃ pulses window taken, Taken p created opened pulses window taken

namespace Tracks

variable {p : PeakHold} {created opened now : Instant} {calls : List (Binary32 × Instant)}
  {gap : Span} {input : Binary32}

/-- **The next drop does not lift the peak.** `p.settings.dropped p.peak time ≤ p.peak`. -/
theorem dropped_le (h : Tracks p created calls opened) (hrate : p.settings.rate.isFinite = true)
    (hlifts : p.settings.NeverLifts created) (hgap : now.since? opened = some gap)
    (hlength : Sampler.usualLength ≤ gap) (hnonneg : 0 ≤ input) (hle : ¬p.peak ≤ input)
    {time : Span} (htime : p.dropTime? now = some time) :
    p.settings.dropped p.peak time ≤ p.peak := by
  by_cases hpos : 0 ≤ p.settings.rate
  · -- the level does not rise at all
    exact PeakHold.dropped_le hrate hpos (Binary.ne_nan_of_isFinite h.bounded.isFinite) time
  · have hneg : p.settings.rate ≤ 0 := Binary.le_of_lt
      ((Binary.not_le Binary.zero_ne_nan (Binary.ne_nan_of_isFinite hrate)).mp hpos)
    by_cases hcalls : calls = []
    · -- the first input cannot be lower than the peak
      rw [h.bounded.peak_eq_zero (by rw [hcalls, List.map_nil])] at hle
      exact absurd hnonneg hle
    · obtain ⟨pulses, window, taken, htaken⟩ := h.taken hneg hcalls
      exact htaken.dropped_le hlifts h.lastCall_eq hgap hlength
        (fun hzero => hle (Binary.le_trans hzero hnonneg)) htime

/-- The next call takes its input, or finds a peak that was taken. -/
theorem taken_step (h : Tracks p created calls opened)
    (hcreated : created.ticks.toNat ≤ opened.ticks.toNat)
    (hrate : p.settings.rate.isFinite = true) (hneg : p.settings.rate ≤ 0)
    (hlifts : p.settings.NeverLifts created) (hgap : now.since? opened = some gap)
    (hlength : Sampler.usualLength ≤ gap) (pulses : UInt32) :
    ∃ pulses' window taken,
      Taken (p.step (Sampler.signalOver gap pulses) now) created now pulses' window taken := by
  by_cases hcalls : calls = []
  · refine ⟨pulses, gap, now, Taken.of_peak_le hcreated hgap hlength ?_⟩
    rw [h.bounded.peak_eq_zero (by rw [hcalls, List.map_nil])]
    exact Sampler.signalOver_nonneg (microseconds_pos hlength) pulses
  · obtain ⟨pulses', window, taken, htaken⟩ := h.taken hneg hcalls
    exact htaken.step hrate hneg hlifts h.lastCall_eq hgap hlength pulses

end Tracks

variable {created opened : Instant} {calls : List (Binary32 × Instant)} {settings : Settings}

/-- **Sampled runs.** A peak hold whose settings never lift a peak tracks the calls that a sampler
makes. -/
theorem Sampled.tracks (h : Sampled created calls opened) (hrate : settings.rate.isFinite = true)
    (hlifts : settings.NeverLifts created) :
    Tracks ((start settings created).run calls) created calls opened := by
  -- induction on the calls; tracking the earlier ones keeps the next drop from lifting the peak
  induction h with
  | nil => exact ⟨Bounded.start settings created, rfl, fun _ hne => absurd rfl hne⟩
  | @concat calls opened now gap h hgap hlength pulses ih =>
    have hfin := Sampler.isFinite_signalOver (microseconds_pos hlength) pulses
    have hnonneg := Sampler.signalOver_nonneg (microseconds_pos hlength) pulses
    have hinputs : ∀ input ∈ calls.map Prod.fst, input.isFinite = true := by
      intro input hmem
      obtain ⟨call, hcall, rfl⟩ := List.mem_map.mp hmem
      exact (h.input_bounds call hcall).1
    have hsettings : ((start settings created).run calls).settings = settings := settings_run _ _
    rw [run_concat]
    generalize (start settings created).run calls = p at ih hsettings ⊢
    rw [← hsettings] at hrate hlifts
    refine ⟨?_, lastCall_step p _ _, ?_⟩
    · rw [List.map_append]
      exact ih.bounded.step hinputs hrate hfin hnonneg fun hle time htime =>
        ih.dropped_le hrate hlifts hgap hlength hnonneg hle htime
    · intro hneg _
      rw [settings_step] at hneg
      exact ih.taken_step h.created_le hrate hneg hlifts hgap hlength pulses

/-- **Settings that never lift a peak** give enveloped targets. -/
theorem Sampled.enveloped (h : Sampled created calls opened) (hcalls : calls ≠ [])
    (hrate : settings.rate.isFinite = true) (hlifts : settings.NeverLifts created) :
    Enveloped (calls.map Prod.fst) (usable ((start settings created).run calls).peak.convert) := by
  refine (h.tracks hrate hlifts).bounded.enveloped ?_ (by simpa using hcalls)
  intro input hmem
  obtain ⟨call, hcall, rfl⟩ := List.mem_map.mp hmem
  exact h.input_bounds call hcall

/-! ## Settings that lift a peak -/

/-- **Two calls.** A first input that is taken and a lower one after the hold delay give what is
left of the first, or the second if that is higher. -/
theorem peak_run_pair {high low : Binary32} {taken now : Instant} {time : Span}
    (hhigh : 0 ≤ high) (hlow : ¬high ≤ low) (hpos : 0 < time.ticks.toNat)
    (hnow : taken.ticks.toNat + settings.delay.ticks.toNat + time.ticks.toNat = now.ticks.toNat) :
    ((start settings created).run [(high, taken), (low, now)]).peak =
      if settings.level high time < low.convert then low else settings.dropped high time := by
  have hfirst : (start settings created).step high taken =
      ⟨settings, high, .holding taken, taken⟩ := step_of_peak_le hhigh taken
  have hdrop : (⟨settings, high, .holding taken, taken⟩ : PeakHold).dropTime? now = some time := by
    by_cases hdelay : 0 < settings.delay
    · have hover : taken.ticks.toNat + settings.delay.ticks.toNat < now.ticks.toNat := by
        omega
      obtain ⟨rest, hsome, hsum⟩ := exists_dropTime?_of_over
        (p := ⟨settings, high, .holding taken, taken⟩) rfl hdelay hover
      have hticks : rest.ticks.toNat = time.ticks.toNat :=
        Nat.add_left_cancel (hsum.trans hnow.symm)
      rw [hsome, Span.toNat_inj hticks]
    · have hzero := Span.not_pos_iff.mp hdelay
      have hsince := Instant.toNat_since_eq_sub now taken
      rw [dropTime?_of_not_held (.inr hdelay)]
      refine congrArg some (Span.toNat_inj ?_)
      dsimp only
      omega
  rw [run_cons, run_cons, run_nil, hfirst, step_of_dropTime?_eq_some hlow hdrop]
  rfl

/-- The two calls of a sampler that find some pulses in a window and some in the next. -/
theorem sampled_pair {taken now : Instant} {window gap : Span}
    (hwindow : taken.since? created = some window) (hlength : Sampler.usualLength ≤ window)
    (hgap : now.since? taken = some gap) (hgaplength : Sampler.usualLength ≤ gap)
    (pulses pulses' : UInt32) :
    Sampled created [(Sampler.signalOver window pulses, taken),
      (Sampler.signalOver gap pulses', now)] now :=
  (Sampled.nil.concat hwindow hlength pulses).concat hgap hgaplength pulses'

/-- A finite peak that dropping has lifted is a target above every input. -/
theorem not_enveloped_of_isFinite {high lifted : Binary32} (hhigh : 0 ≤ high)
    (hlift : high < lifted) (hfin : lifted.isFinite = true) :
    ¬Enveloped [high, 0] (usable lifted.convert) := by
  have hwide : ∀ {x y : Binary32}, (x.convert : Binary64) ≤ y.convert → x ≤ y :=
    (Binary.convert_le_convert_iff Format.binary32_fits_binary64).mp
  have hpos : 0 < lifted := Binary.lt_of_le_of_lt hhigh hlift
  have hwidepos : 0 < (lifted.convert : Binary64) := by
    have h := (Binary.convert_lt_convert_iff Format.binary32_fits_binary64 Binary.zero_ne_nan
      (Binary.ne_nan_of_isFinite hfin)).mpr hpos
    rwa [Binary.convert_zero] at h
  have husable : usable lifted.convert = (lifted.convert : Binary64) :=
    if_pos ⟨isFinite_wide hfin, hwidepos⟩
  rintro ⟨-, input, hmem, hle⟩
  rw [husable] at hle
  have hinput : input ≤ high := by
    rcases List.mem_pair.mp hmem with rfl | rfl
    · exact Binary.le_refl_of_ne_nan (Binary.ne_nan_of_le hhigh).2
    · exact hhigh
  exact Binary.lt_irrefl high
    (Binary.lt_of_lt_of_le hlift (Binary.le_trans (hwide hle) hinput))

/-- A peak that dropping has lifted to infinity switches the output off, below a positive input. -/
theorem not_enveloped_of_infinity {high low : Binary32} (hlow : 0 < low) :
    ¬Enveloped [high, low] (usable ((.infinity false : Binary32).convert)) := by
  have hoff : usable ((.infinity false : Binary32).convert) = 0 := rfl
  rintro ⟨hlast, -⟩
  have hle := hlast low rfl
  rw [hoff, ← Binary.convert_zero (f := .binary32),
    Binary.convert_le_convert_iff Format.binary32_fits_binary64] at hle
  exact Binary.lt_irrefl 0 (Binary.lt_of_lt_of_le hlow hle)

/-- The times of two calls, the second of which finds the hold delay over for a given time. -/
theorem exists_times {window time : Span}
    (hsecond : Sampler.usualLength.ticks.toNat ≤
      settings.delay.ticks.toNat + time.ticks.toNat)
    (hbound : created.ticks.toNat + window.ticks.toNat + settings.delay.ticks.toNat +
      time.ticks.toNat < 2 ^ 64) :
    ∃ (taken now : Instant) (gap : Span), taken.since? created = some window ∧
      now.since? taken = some gap ∧ Sampler.usualLength ≤ gap ∧
      taken.ticks.toNat + settings.delay.ticks.toNat + time.ticks.toNat = now.ticks.toNat := by
  obtain ⟨gap, hgap⟩ :=
    Span.exists_toNat_eq (settings.delay.ticks.toNat + time.ticks.toNat) (by omega)
  obtain ⟨taken, hwindow⟩ := Instant.exists_since? created window (by omega)
  have htaken := Instant.since?_eq_some_iff.mp hwindow
  obtain ⟨now, hnow⟩ := Instant.exists_since? taken gap (by omega)
  have hsum := Instant.since?_eq_some_iff.mp hnow
  refine ⟨taken, now, gap, hwindow, hnow, UInt64.le_iff_toNat_le.mpr ?_, ?_⟩
  · omega
  · omega

/-- If a peak is lifted to a finite one, it is when the fan stops. -/
theorem exists_not_enveloped_of_isFinite {pulses : UInt32} {window time : Span}
    (hpulses : pulses ≠ 0) (hlength : Sampler.usualLength ≤ window) (hpos : 0 < time.ticks.toNat)
    (hsecond : Sampler.usualLength.ticks.toNat ≤
      settings.delay.ticks.toNat + time.ticks.toNat)
    (hbound : created.ticks.toNat + window.ticks.toNat + settings.delay.ticks.toNat +
      time.ticks.toNat < 2 ^ 64)
    (hlift : Sampler.signalOver window pulses <
      settings.dropped (Sampler.signalOver window pulses) time)
    (hfinite : (settings.dropped (Sampler.signalOver window pulses) time).isFinite = true) :
    ∃ calls opened, Sampled created calls opened ∧ calls ≠ [] ∧
      ¬Enveloped (calls.map Prod.fst)
        (usable ((start settings created).run calls).peak.convert) := by
  obtain ⟨taken, now, gap, hwindow, hgap, hgaplength, hnow⟩ := exists_times hsecond hbound
  have hsignal := Sampler.signalOver_pos (microseconds_pos hlength) hpulses
  have hnonneg := Binary.le_of_lt hsignal
  refine ⟨_, _, sampled_pair hwindow hlength hgap hgaplength pulses 0, by simp, ?_⟩
  have hsilent := Sampler.signalOver_zero (microseconds_pos hgaplength)
  have hhigher : ¬Sampler.signalOver window pulses ≤ 0 :=
    (Binary.not_le (Binary.ne_nan_of_le hnonneg).2 Binary.zero_ne_nan).mpr hsignal
  have hlevel : ¬settings.level (Sampler.signalOver window pulses) time <
      ((0 : Binary32).convert : Binary64) := by
    intro hbelow
    exact Binary.lt_irrefl _ (Binary.lt_of_le_of_lt
      (Binary.le_trans (dropped_le_of_level_le (Binary.le_of_lt hbelow)) hnonneg) hlift)
  -- the second target is what the peak was lifted to
  rw [hsilent, peak_run_pair hnonneg hhigher hpos hnow, if_neg hlevel]
  exact not_enveloped_of_isFinite hnonneg hlift hfinite

/-- If a peak is lifted to infinity, so is the highest there is, and then the output is off while
the fan still turns. -/
theorem exists_not_enveloped_of_infinity (hrate : settings.rate.isFinite = true)
    {pulses : UInt32} {window time : Span} (hlength : Sampler.usualLength ≤ window)
    (hpos : 0 < time.ticks.toNat)
    (hsecond : Sampler.usualLength.ticks.toNat ≤
      settings.delay.ticks.toNat + time.ticks.toNat)
    (hbound : created.ticks.toNat + window.ticks.toNat + settings.delay.ticks.toNat +
      time.ticks.toNat < 2 ^ 64)
    (hlift : settings.dropped (Sampler.signalOver window pulses) time = .infinity false) :
    ∃ calls opened, Sampled created calls opened ∧ calls ≠ [] ∧
      ¬Enveloped (calls.map Prod.fst)
        (usable ((start settings created).run calls).peak.convert) := by
  have hlong := UInt64.le_iff_toNat_le.mp hlength
  have hshort : created.ticks.toNat + Sampler.usualLength.ticks.toNat +
      settings.delay.ticks.toNat + time.ticks.toNat < 2 ^ 64 := by
    omega
  obtain ⟨taken, now, gap, hwindow, hgap, hgaplength, hnow⟩ := exists_times hsecond hshort
  have husual : Sampler.usualLength ≤ Sampler.usualLength := UInt64.le_refl _
  have hsecondval : Sampler.usualLength.seconds.toRat = 1 := by
    decide +kernel
  have hfin : ∀ {d : Span}, Sampler.usualLength ≤ d → ∀ pulses,
      (Sampler.signalOver d pulses).isFinite = true :=
    fun h => Sampler.isFinite_signalOver (microseconds_pos h)
  have hmono : ∀ {d : Span}, Sampler.usualLength ≤ d → ∀ {a b : UInt32}, a ≤ b →
      Sampler.signalOver d a ≤ Sampler.signalOver Sampler.usualLength b := by
    intro d hd a b hab
    refine Sampler.signalOver_mono (microseconds_pos hd) (microseconds_pos husual) ?_ hab
    rw [hsecondval]
    exact Span.one_le_seconds hd
  -- the most pulses in the shortest window make the highest peak, and it is lifted as well
  have hhighest : settings.dropped (Sampler.signalOver Sampler.usualLength 4294967295) time =
      .infinity false := by
    have hle : pulses ≤ 4294967295 := UInt32.le_iff_toNat_le.mpr (by
      have := pulses.toNat_lt
      show pulses.toNat ≤ 4294967295
      omega)
    refine Binary.eq_infinity_of_le ?_
    rw [← hlift]
    exact dropped_mono hrate (hmono hlength hle) time
  have hhigher : ¬Sampler.signalOver Sampler.usualLength 4294967295 ≤ Sampler.signalOver gap 1 := by
    have hone : Sampler.signalOver Sampler.usualLength 1 <
        Sampler.signalOver Sampler.usualLength 4294967295 := by
      decide +kernel
    intro hle
    exact Binary.lt_irrefl _ (Binary.lt_of_le_of_lt
      (Binary.le_trans hle (hmono hgaplength (UInt32.le_refl 1))) hone)
  have hlevel : ¬settings.level (Sampler.signalOver Sampler.usualLength 4294967295) time <
      (Sampler.signalOver gap 1).convert := by
    intro hbelow
    have hle := dropped_le_of_level_le (Binary.le_of_lt hbelow)
    rw [hhighest] at hle
    have hone := hfin hgaplength 1
    rw [Binary.eq_infinity_of_le hle] at hone
    exact absurd hone (by simp [Binary.isFinite])
  refine ⟨_, _, sampled_pair hwindow husual hgap hgaplength 4294967295 1, by simp, ?_⟩
  rw [peak_run_pair (Sampler.signalOver_nonneg (microseconds_pos husual) _) hhigher hpos hnow,
    if_neg hlevel, hhighest]
  exact not_enveloped_of_infinity
    (Sampler.signalOver_pos (microseconds_pos hgaplength) (by decide))

/-- **Settings that lift a peak** give a target that is not enveloped, at the second call of a
sampler. -/
theorem exists_not_enveloped (hrate : settings.rate.isFinite = true)
    (hlifts : ¬settings.NeverLifts created) :
    ∃ calls opened, Sampled created calls opened ∧ calls ≠ [] ∧
      ¬Enveloped (calls.map Prod.fst)
        (usable ((start settings created).run calls).peak.convert) := by
  simp only [Settings.NeverLifts, not_forall] at hlifts
  obtain ⟨pulses, window, time, hpulses, hlength, hpos, hsecond, hbound, hlift⟩ := hlifts
  have hsignal := Binary.ne_nan_of_isFinite
    (Sampler.isFinite_signalOver (microseconds_pos hlength) pulses)
  have hdropped : settings.dropped (Sampler.signalOver window pulses) time ≠ .nan :=
    Binary.convert_ne_nan (level_ne_nan hrate hsignal time)
  have hlt := (Binary.not_le hdropped hsignal).mp hlift
  by_cases hfinite : (settings.dropped (Sampler.signalOver window pulses) time).isFinite = true
  · exact exists_not_enveloped_of_isFinite hpulses hlength hpos hsecond hbound hlt hfinite
  · obtain ⟨s, hs⟩ := Binary.eq_infinity hdropped hfinite
    have hnonneg := Sampler.signalOver_nonneg (microseconds_pos hlength) pulses
    have hsign : 0 ≤ (.infinity s : Binary32) := by
      rw [← hs]
      exact Binary.le_trans hnonneg (Binary.le_of_lt hlt)
    rw [(Binary.infinity_nonneg_iff s).mp hsign] at hs
    exact exists_not_enveloped_of_infinity hrate hlength hpos hsecond hbound hs

/-- **Which settings give enveloped targets.** The targets of all calls that a sampler can make are
enveloped exactly when the settings never lift a peak. -/
theorem enveloped_iff_neverLifts (hrate : settings.rate.isFinite = true) :
    (∀ calls opened, Sampled created calls opened → calls ≠ [] →
      Enveloped (calls.map Prod.fst)
        (usable ((start settings created).run calls).peak.convert)) ↔
      settings.NeverLifts created := by
  constructor
  · intro hall
    by_contra hlifts
    obtain ⟨calls, opened, hsampled, hne, hnot⟩ := exists_not_enveloped hrate hlifts
    exact hnot (hall calls opened hsampled hne)
  · intro hlifts calls opened hsampled hne
    exact hsampled.enveloped hne hrate hlifts

end PeakHold

end Tachometer
