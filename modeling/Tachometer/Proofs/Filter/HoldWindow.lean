import Tachometer.Proofs.Filter.PeakHold

/-! # The hold delay and a clock that goes backwards

While a peak is held nothing but a higher input changes it, in whatever order the times of the calls
come. A held peak was never called after its hold delay, since that call would have made it drop; so
a call that is not after the one before it finds the peak held, or finds that no time has passed.

* `PeakHold.run_of_holds` — calls in the hold delay.
* `PeakHold.Timely`, `PeakHold.Timely.step` — the held peaks that a run comes to.
* `PeakHold.Timely.peak_step` — a call that is not after the one before it.
* `PeakHold.holds_and_keeps` — both, from the call on that a peak was taken at. -/

namespace Tachometer

namespace PeakHold

variable {p : PeakHold} {taken now : Instant} {input : Binary32}
  {calls : List (Binary32 × Instant)}

/-! ## Calls in the hold delay -/

/-- **Held peaks stay.** Calls below a held peak leave the peak and its phase as they are. -/
theorem run_of_holds (hphase : p.phase = .holding taken)
    (hcalls : ∀ call ∈ calls, ¬p.peak ≤ call.1 ∧ p.settings.Holds taken call.2) :
    (p.run calls).peak = p.peak ∧ (p.run calls).phase = .holding taken := by
  induction calls generalizing p with
  | nil => exact ⟨rfl, hphase⟩
  | cons call calls ih =>
    obtain ⟨⟨hbelow, hholds⟩, hrest⟩ := List.forall_mem_cons.mp hcalls
    have hnone := dropTime?_of_holds hphase hholds
    rw [run_cons, step_of_dropTime?_eq_none hbelow hnone]
    exact ih hphase hrest

/-- A call below the peak that is past the hold delay makes it drop:
`(p.step input now).phase = .dropping`. -/
theorem phase_step_of_not_holds (hbelow : ¬p.peak ≤ input)
    (hholds : ∀ taken, p.phase = .holding taken → ¬p.settings.Holds taken now) :
    (p.step input now).phase = .dropping := by
  cases htime : p.dropTime? now with
  | none =>
    obtain ⟨taken, hphase, h⟩ := holds_of_dropTime?_eq_none htime
    exact absurd h (hholds taken hphase)
  | some time => rw [step_of_dropTime?_eq_some hbelow htime]

/-! ## Calls in no time -/

/-- The time of the last call of a run. -/
theorem lastCall_run (p : PeakHold) (calls : List (Binary32 × Instant)) :
    (p.run calls).lastCall =
      (p.lastCall :: calls.map Prod.snd).getLast (List.cons_ne_nil _ _) := by
  induction calls generalizing p with
  | nil => rfl
  | cons call calls ih =>
    rw [run_cons, ih, lastCall_step]
    exact (List.getLast_cons_cons ..).symm

/-- A held peak was not called after its hold delay. -/
structure Timely (p : PeakHold) : Prop where
  /-- The peak is a number. -/
  peak_ne_nan : p.peak ≠ .nan
  /-- The last call was in the hold delay, if the peak is held. -/
  lastCall_le : ∀ taken, p.phase = .holding taken →
    p.lastCall.ticks.toNat ≤ taken.ticks.toNat + p.settings.delay.ticks.toNat

/-- The call that takes a peak is not after its hold delay: `Timely (p.step top taken)`. -/
theorem timely_of_peak_le {top : Binary32} (h : p.peak ≤ top) (taken : Instant) :
    Timely (p.step top taken) := by
  rw [step_of_peak_le h]
  refine ⟨(Binary.ne_nan_of_le h).2, ?_⟩
  rintro _ ⟨⟩
  exact Nat.le_add_right _ _

/-- **One call** keeps a peak hold timely: past the hold delay the peak would not be held. -/
theorem Timely.step (h : p.Timely) (hrate : p.settings.rate.isFinite = true) (input : Binary32)
    (now : Instant) : (p.step input now).Timely := by
  by_cases hle : p.peak ≤ input
  · exact timely_of_peak_le hle now
  · refine ⟨peak_step_ne_nan hrate h.peak_ne_nan input now, ?_⟩
    intro taken hphase
    cases htime : p.dropTime? now with
    | none =>
      obtain ⟨since, hsince, hholds⟩ := holds_of_dropTime?_eq_none htime
      rw [step_of_dropTime?_eq_none hle htime] at hphase ⊢
      obtain rfl := Phase.holding.inj (hsince.symm.trans hphase)
      exact hholds.2
    | some time =>
      rw [step_of_dropTime?_eq_some hle htime] at hphase
      exact absurd hphase (by simp)

/-- No run leaves a held peak that was called after its hold delay: `(p.run calls).Timely`. -/
theorem Timely.run (h : p.Timely) (hrate : p.settings.rate.isFinite = true)
    (calls : List (Binary32 × Instant)) : (p.run calls).Timely := by
  induction calls generalizing p with
  | nil => exact h
  | cons call calls ih => exact ih (h.step hrate call.1 call.2) (by rwa [settings_step])

/-- **In no time** a peak drops for no time, if it drops:
`p.dropTime? now = none ∨ p.dropTime? now = some 0`. -/
theorem Timely.dropTime? (h : p.Timely) (hnow : now.ticks.toNat ≤ p.lastCall.ticks.toNat) :
    p.dropTime? now = none ∨ p.dropTime? now = some 0 := by
  obtain ⟨_, -, -, hnone⟩ | ⟨taken, _, hphase, -, hpos, hsum⟩ | ⟨-, htime⟩ := dropTime?_cases p now
  · exact .inl hnone
  · -- the last call was in the hold delay, and this one is no later
    have hle := h.lastCall_le taken hphase
    omega
  · have hzero : now.since p.lastCall = 0 := by
      apply Span.toNat_inj
      rw [Instant.toNat_since_eq_sub, Nat.sub_eq_zero_of_le hnow]
      rfl
    exact .inr (by rw [htime, hzero])

/-- In no time nothing is lost of a peak: `(p.left now).sameValue p.peak = true`. -/
theorem Timely.left_sameValue (h : p.Timely) (hrate : p.settings.rate.isFinite = true)
    (hnow : now.ticks.toNat ≤ p.lastCall.ticks.toNat) : (p.left now).sameValue p.peak = true := by
  rcases h.dropTime? hnow with htime | htime
  · rw [left_of_dropTime?_eq_none htime]
    exact Binary.sameValue_self h.peak_ne_nan
  · rw [left_of_dropTime?_eq_some htime]
    obtain ⟨hlow, hhigh⟩ := level_zero hrate h.peak_ne_nan
    exact Binary.sameValue_of_le_of_le (dropped_le_of_level_le hhigh) (le_dropped_of_le_level hlow)

/-- **No decay in no time.** A call that is not after the one before it gives the larger of its
input and the result before it. -/
theorem Timely.peak_step (h : p.Timely) (hrate : p.settings.rate.isFinite = true)
    (hnow : now.ticks.toNat ≤ p.lastCall.ticks.toNat) :
    (p.step input now).peak.sameValue (Binary.larger p.peak input) = true :=
  peak_step_of_left hrate (h.left_sameValue hrate hnow) input

/-! ## From the call on that took the peak -/

/-- **Hold delay and clock skew.** From the call on that took a peak: calls below it in the hold
delay give the peak and leave it held, in whatever order their times come, and the first one past
the delay makes it drop. And at any point of any run a call that is not after the one before it
gives the larger of its input and the result before it. -/
theorem holds_and_keeps {top : Binary32} (hrate : p.settings.rate.isFinite = true)
    (htop : p.peak ≤ top) (taken : Instant) :
    (0 < p.settings.delay →
      ∀ calls : List (Binary32 × Instant),
        (∀ call ∈ calls, ¬top ≤ call.1 ∧
          call.2.ticks.toNat ≤ taken.ticks.toNat + p.settings.delay.ticks.toNat) →
        ((p.step top taken).run calls).peak = top ∧
          ((p.step top taken).run calls).phase = .holding taken ∧
          ∀ input now, ¬top ≤ input →
            taken.ticks.toNat + p.settings.delay.ticks.toNat < now.ticks.toNat →
            (((p.step top taken).run calls).step input now).phase = .dropping) ∧
      ∀ (calls : List (Binary32 × Instant)) (input : Binary32) (now : Instant), input ≠ .nan →
        now.ticks.toNat ≤
          ((taken :: calls.map Prod.snd).getLast (List.cons_ne_nil _ _)).ticks.toNat →
        (((p.step top taken).run calls).step input now).peak.sameValue
          (Binary.larger ((p.step top taken).run calls).peak input) = true := by
  constructor
  · intro hdelay calls hcalls
    have hpeak : (p.step top taken).peak = top := by
      rw [step_of_peak_le htop]
    have hphase : (p.step top taken).phase = .holding taken := by
      rw [step_of_peak_le htop]
    have hheld : ∀ call ∈ calls, ¬(p.step top taken).peak ≤ call.1 ∧
        (p.step top taken).settings.Holds taken call.2 := by
      intro call hcall
      rw [hpeak, settings_step]
      exact ⟨(hcalls call hcall).1, hdelay, (hcalls call hcall).2⟩
    obtain ⟨hrunpeak, hrunphase⟩ := run_of_holds hphase hheld
    rw [hpeak] at hrunpeak
    refine ⟨hrunpeak, hrunphase, ?_⟩
    intro input now hbelow hover
    refine phase_step_of_not_holds (by rwa [hrunpeak]) ?_
    intro since hsince hholds
    obtain rfl := Phase.holding.inj (hrunphase.symm.trans hsince)
    rw [settings_run, settings_step] at hholds
    exact absurd hholds.2 (Nat.not_le.mpr hover)
  · intro calls input now hinput hnow
    have hsettings : (p.step top taken).settings.rate.isFinite = true := by
      rwa [settings_step]
    have htimely := (timely_of_peak_le htop taken).run hsettings calls
    refine htimely.peak_step (by rwa [settings_run]) ?_
    rw [lastCall_run, lastCall_step]
    exact hnow

/-- A peak of ten, taken five seconds after the clock started: it is held through a call a second
earlier and one without a value, it drops at the sixth second, and a call half a second before that
finds it where it was. -/
theorem holds_and_keeps_skewedClock :
    let p := start ⟨.ofNat 2, ⟨50000000⟩⟩ ⟨0⟩
    let q := p.step (.ofNat 10) ⟨500000000⟩
    let held : List (Binary32 × Instant) := [(0, ⟨400000000⟩), (.nan, ⟨530000000⟩)]
    let dropped : List (Binary32 × Instant) := held ++ [(0, ⟨600000000⟩)]
    p.settings.rate.isFinite = true ∧ p.peak ≤ .ofNat 10 ∧ 0 < p.settings.delay ∧
      (q.run held).peak = .ofNat 10 ∧ ((q.run held).step 0 ⟨600000000⟩).phase = .dropping ∧
      ((q.run dropped).step (.ofNat 3) ⟨550000000⟩).peak.sameValue
        (Binary.larger (q.run dropped).peak (.ofNat 3)) = true := by
  intro p q held dropped
  have hrate : p.settings.rate.isFinite = true := by decide +kernel
  have htop : p.peak ≤ .ofNat 10 := by decide +kernel
  have hdelay : 0 < p.settings.delay := by decide +kernel
  have hheld : ∀ call ∈ held, ¬(.ofNat 10 : Binary32) ≤ call.1 ∧
      call.2.ticks.toNat ≤
        (⟨500000000⟩ : Instant).ticks.toNat + p.settings.delay.ticks.toNat := by
    decide +kernel
  obtain ⟨hhold, hkeep⟩ := holds_and_keeps hrate htop ⟨500000000⟩
  obtain ⟨hpeak, -, hover⟩ := hhold hdelay held hheld
  exact ⟨hrate, htop, hdelay, hpeak, hover 0 ⟨600000000⟩ (by decide +kernel) (by decide +kernel),
    hkeep dropped (.ofNat 3) ⟨550000000⟩ (by decide +kernel) (by decide +kernel)⟩

end PeakHold

end Tachometer
