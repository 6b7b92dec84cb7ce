import Mathlib.Algebra.BigOperators.Group.Finset.Basic
import Tachometer.Proofs.Filter.PeakHold

/-! # The time that a peak drops for

A peak is held for the hold delay and drops from then on. The call that finds the delay over goes by
the time since the peak was taken, the ones after it by the time since the last call, and without a
delay the first one does so too. Nothing is counted twice or left out: hold delay and drop times
together always make up the time since the peak was taken.

* `PeakHold.Accounted` — where the time since a peak was taken has gone, kept by each call:
  `PeakHold.Accounted.step`.
* `PeakHold.exists_dropTimes` — a run of calls below the peak. -/

namespace Tachometer

namespace PeakHold

variable {p : PeakHold} {taken now : Instant} {input : Binary32} {spent : Nat}

/-! ## Where the time has gone -/

/-- Where the time since a peak was taken has gone by the last call, the peak having dropped for
`spent` ticks. -/
inductive Accounted (p : PeakHold) (taken : Instant) (spent : Nat) : Prop
  /-- The peak is held, and no longer than for the hold delay. -/
  | held (phase_eq : p.phase = .holding taken) (spent_eq : spent = 0)
      (taken_le : taken.ticks.toNat ≤ p.lastCall.ticks.toNat)
      (le_delay : p.lastCall.ticks.toNat ≤ taken.ticks.toNat + p.settings.delay.ticks.toNat)
  /-- The hold delay is over, and the peak has dropped for the rest of the time. -/
  | dropping (phase_eq : p.phase = .dropping)
      (sum_eq : taken.ticks.toNat + p.settings.delay.ticks.toNat + spent = p.lastCall.ticks.toNat)
      (spent_pos : 0 < p.settings.delay → 0 < spent)

/-- A peak that was just taken is held. -/
theorem accounted_of_peak_le {top : Binary32} (h : p.peak ≤ top) (taken : Instant) :
    Accounted (p.step top taken) taken 0 := by
  rw [step_of_peak_le h]
  exact .held rfl rfl le_rfl (Nat.le_add_right _ _)

/-- Where the time is accounted for, the peak was taken by the last call:
`taken.ticks.toNat ≤ p.lastCall.ticks.toNat`. -/
theorem Accounted.taken_le (h : Accounted p taken spent) :
    taken.ticks.toNat ≤ p.lastCall.ticks.toNat := by
  cases h with
  | held _ _ htaken _ => exact htaken
  | dropping _ hsum _ => omega

/-- **The drop time of a call** is what is missing to the time of the call, unless the peak is still
held. -/
theorem Accounted.dropTime? (h : Accounted p taken spent)
    (hle : p.lastCall.ticks.toNat ≤ now.ticks.toNat) :
    (p.settings.Holds taken now ∧ p.phase = .holding taken ∧ spent = 0 ∧
        p.dropTime? now = none) ∨
      (¬p.settings.Holds taken now ∧ ∃ time, p.dropTime? now = some time ∧
        taken.ticks.toNat + p.settings.delay.ticks.toNat + (spent + time.ticks.toNat) =
          now.ticks.toNat) := by
  have hsince := Instant.toNat_since_eq_sub now p.lastCall
  cases h with
  | held hphase hspent htaken hdelay =>
    by_cases hholds : p.settings.Holds taken now
    · exact .inl ⟨hholds, hphase, hspent, dropTime?_of_holds hphase hholds⟩
    · refine .inr ⟨hholds, ?_⟩
      by_cases hpos : 0 < p.settings.delay
      · obtain ⟨time, htime, hsum⟩ := exists_dropTime?_of_over hphase hpos
          (Nat.not_le.mp fun hnow => hholds ⟨hpos, hnow⟩)
        exact ⟨time, htime, by omega⟩
      · -- without a delay the last call is the one that the peak was taken at
        have hzero := Span.not_pos_iff.mp hpos
        exact ⟨_, dropTime?_of_not_held (.inr hpos), by omega⟩
  | dropping hphase hsum hpos =>
    refine .inr ⟨fun hholds => ?_, _, dropTime?_of_not_held (.inl hphase), by omega⟩
    have hspent := hpos hholds.1
    have hnow := hholds.2
    omega

/-- **One call** below the peak. -/
theorem Accounted.step (h : Accounted p taken spent) (hbelow : ¬p.peak ≤ input)
    (hle : p.lastCall.ticks.toNat ≤ now.ticks.toNat) :
    Accounted (p.step input now) taken (spent + ((p.dropTime? now).getD 0).ticks.toNat) := by
  obtain ⟨hholds, hphase, hspent, htime⟩ | ⟨hholds, time, htime, hsum⟩ := h.dropTime? hle
  · rw [step_of_dropTime?_eq_none hbelow htime, htime]
    exact .held hphase hspent (h.taken_le.trans hle) hholds.2
  · rw [step_of_dropTime?_eq_some hbelow htime, htime]
    refine .dropping rfl hsum ?_
    intro hpos
    have hover := Nat.not_le.mp fun hnow => hholds ⟨hpos, hnow⟩
    show 0 < spent + time.ticks.toNat
    omega

/-! ## A run below the peak -/

/-- The time that the peak drops for at a call of a run; none at a call that leaves it alone. -/
def dropTimeAt (p : PeakHold) (calls : List (Binary32 × Instant)) (i : Nat) : Span :=
  (calls[i]?.bind fun call => (p.run (calls.take i)).dropTime? call.2).getD 0

variable {calls : List (Binary32 × Instant)} {i : Nat}

/-- One more call of a run. -/
theorem run_take_succ (p : PeakHold) (h : i < calls.length) :
    p.run (calls.take (i + 1)) = (p.run (calls.take i)).step calls[i].1 calls[i].2 := by
  rw [List.take_succ_eq_append_getElem h, run_concat]

/-- The peak drops at a call for what the run up to there finds:
`p.dropTimeAt calls i = ((p.run (calls.take i)).dropTime? calls[i].2).getD 0`. -/
theorem dropTimeAt_eq (p : PeakHold) (h : i < calls.length) :
    p.dropTimeAt calls i = ((p.run (calls.take i)).dropTime? calls[i].2).getD 0 := by
  rw [dropTimeAt, List.getElem?_eq_getElem h, Option.bind_some]

/-- Where the times of the calls do not decrease, no call is before the one before it. -/
theorem lastCall_run_take_le (p : PeakHold)
    (hsorted : (p.lastCall :: calls.map Prod.snd).Pairwise fun a b => a.ticks ≤ b.ticks)
    (h : i < calls.length) :
    (p.run (calls.take i)).lastCall.ticks.toNat ≤ calls[i].2.ticks.toNat := by
  obtain ⟨hfirst, hrest⟩ := List.pairwise_cons.mp hsorted
  refine UInt64.le_iff_toNat_le.mp ?_
  cases i with
  | zero =>
    exact hfirst _ (List.mem_map_of_mem (List.getElem_mem h))
  | succ i =>
    rw [run_take_succ p (Nat.lt_of_succ_lt h), lastCall_step]
    have hpair := List.pairwise_iff_getElem.mp hrest i (i + 1) (by simpa using Nat.lt_of_succ_lt h)
      (by simpa using h) (Nat.lt_succ_self i)
    simpa using hpair

/-- **A run below the peak.** At every point the time since the peak was taken is accounted for by
the drop times so far. -/
theorem accounted_run_take (h : Accounted p taken spent)
    (hsorted : (p.lastCall :: calls.map Prod.snd).Pairwise fun a b => a.ticks ≤ b.ticks)
    (hbelow : ∀ i (hi : i < calls.length), ¬(p.run (calls.take i)).peak ≤ calls[i].1)
    (hi : i ≤ calls.length) :
    Accounted (p.run (calls.take i)) taken
      (spent + ∑ j ∈ Finset.range i, (p.dropTimeAt calls j).ticks.toNat) := by
  -- induction on the point in the run, one more call each time
  induction i with
  | zero => exact h
  | succ i ih =>
    have hstep := (ih (Nat.le_of_succ_le hi)).step (hbelow i hi)
      (lastCall_run_take_le p hsorted hi)
    rwa [Finset.sum_range_succ, run_take_succ p hi, dropTimeAt_eq p hi, ← Nat.add_assoc]

/-- **Every tick is dropped once.** In a run of calls below a peak that was just taken, the peak is
left alone as long as it is held, and at every later call it drops for some time, to the input at
the lowest; all these times together are the time that the hold delay has been over. -/
theorem exists_dropTimes {top : Binary32} (htop : p.peak ≤ top)
    (hsorted : (taken :: calls.map Prod.snd).Pairwise fun a b => a.ticks ≤ b.ticks)
    (hbelow : ∀ i (hi : i < calls.length),
      ¬((p.step top taken).run (calls.take i)).peak ≤ calls[i].1) :
    ∃ time : Nat → Span, ∀ i (hi : i < calls.length),
      let before := (p.step top taken).run (calls.take i)
      let after := (p.step top taken).run (calls.take (i + 1))
      let level : Binary64 := before.peak.convert - (time i).seconds * p.settings.rate.convert
      (p.settings.Holds taken calls[i].2 →
        after.peak = before.peak ∧ after.phase = .holding taken ∧ time i = 0) ∧
      (¬p.settings.Holds taken calls[i].2 →
        after.phase = .dropping ∧
        after.peak = (if level < calls[i].1.convert then calls[i].1 else level.convert) ∧
        taken.ticks.toNat + p.settings.delay.ticks.toNat +
          ∑ j ∈ Finset.range (i + 1), (time j).ticks.toNat = calls[i].2.ticks.toNat) := by
  refine ⟨(p.step top taken).dropTimeAt calls, fun i hi => ?_⟩
  have hsorted' : ((p.step top taken).lastCall :: calls.map Prod.snd).Pairwise
      fun a b => a.ticks ≤ b.ticks := by
    rwa [lastCall_step]
  have haccounted := accounted_run_take (accounted_of_peak_le htop taken) hsorted' hbelow hi.le
  have hsettings : ((p.step top taken).run (calls.take i)).settings = p.settings := by
    rw [settings_run, settings_step]
  have htime := haccounted.dropTime? (lastCall_run_take_le _ hsorted' hi)
  rw [hsettings] at htime
  dsimp only
  rw [run_take_succ _ hi, Finset.sum_range_succ, dropTimeAt_eq _ hi]
  obtain ⟨hholds, hphase, -, htime⟩ | ⟨hholds, time, htime, hsum⟩ := htime
  · rw [step_of_dropTime?_eq_none (hbelow i hi) htime, htime]
    exact ⟨fun _ => ⟨rfl, hphase, rfl⟩, fun hnot => absurd hholds hnot⟩
  · rw [step_of_dropTime?_eq_some (hbelow i hi) htime, htime, Option.getD_some]
    refine ⟨fun h => absurd h hholds, fun _ => ⟨rfl, ?_, by omega⟩⟩
    show lowered _ _ _ = _
    rw [lowered, levelAfter, hsettings]

/-- A peak of ten that is held for half a second, with calls in the hold delay, past it, and a
second after that: it has dropped for one and four fifths of a second by the last one. -/
theorem exists_dropTimes_heldPeak :
    let p := start ⟨.ofNat 2, ⟨50000000⟩⟩ ⟨0⟩
    let calls : List (Binary32 × Instant) := [(0, ⟨30000000⟩), (0, ⟨130000000⟩), (0, ⟨230000000⟩)]
    p.peak ≤ .ofNat 10 ∧
      ((⟨0⟩ :: calls.map Prod.snd : List Instant).Pairwise fun a b => a.ticks ≤ b.ticks) ∧
      (∀ i (hi : i < calls.length),
        ¬((p.step (.ofNat 10) ⟨0⟩).run (calls.take i)).peak ≤ calls[i].1) ∧
      ∃ time : Nat → Span,
        0 + 50000000 + ∑ j ∈ Finset.range 3, (time j).ticks.toNat = 230000000 := by
  intro p calls
  have htop : p.peak ≤ .ofNat 10 := by decide +kernel
  have hsorted : (⟨0⟩ :: calls.map Prod.snd : List Instant).Pairwise
      fun a b => a.ticks ≤ b.ticks := by
    decide +kernel
  have hbelow : ∀ i (hi : i < calls.length),
      ¬((p.step (.ofNat 10) ⟨0⟩).run (calls.take i)).peak ≤ calls[i].1 := by
    decide +kernel
  obtain ⟨time, htime⟩ := exists_dropTimes htop hsorted hbelow
  have hover : ¬p.settings.Holds ⟨0⟩ ⟨230000000⟩ := fun h => absurd h.2 (by decide)
  exact ⟨htop, hsorted, hbelow, time, ((htime 2 (by decide)).2 hover).2.2⟩

end PeakHold

end Tachometer
