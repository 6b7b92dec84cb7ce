import Tachometer.Proofs.Input.Binding

/-! # Configurations, taken over or refused

A configuration is looked through before anything is written, so there is nothing between the two
things that can come of it.

* `Counters.Refuses` — nothing changes, and the fault is reported.
* `Counters.TakesOver` — the counters start anew, whatever they were.
* `Counters.configure_cases` — one of the two happens, and the pins alone decide which. -/

namespace Tachometer.Counters

variable {n : Nat} {pins : Vector Nat n}

/-- **Refused as a whole.** Counters that refuse pins for a fault are the same afterwards, and
one error is reported. -/
structure Refuses (c : Counters n) (pins : Vector Nat n) (fault : Fault) : Prop where
  /-- The fault comes back. -/
  fault_eq : (c.configure pins).fault = some fault
  /-- The table and the counts are as they were. -/
  counters_eq : (c.configure pins).counters = c
  /-- The only notice is an error. -/
  levels_eq : (c.configure pins).notices.map Notice.level = [.error]

/-- **Taken over as a whole.** Counters that take pins over have nothing left of what they were. -/
structure TakesOver (c : Counters n) (pins : Vector Nat n) : Prop where
  /-- No fault comes back. -/
  fault_eq : (c.configure pins).fault = none
  /-- All other counters would have become the same. -/
  counters_eq (other : Counters n) :
    (c.configure pins).counters = (other.configure pins).counters
  /-- Every count is zero. -/
  counts_eq_zero (channel : Fin n) : (c.configure pins).counters.counts.get channel = 0
  /-- The pins are bound to their channels, and no other pin is bound. -/
  bound?_eq_some_iff (pin channel : Nat) :
    (c.configure pins).counters.bound? pin = some channel ↔ pins[channel]? = some pin
  /-- The only notice is an information. -/
  levels_eq : (c.configure pins).notices.map Notice.level = [.info]

/-- Assignments make equal tables of equal tables. -/
theorem table_assignAll_congr {c d : Counters n} (h : c.table = d.table)
    (assignments : List (Nat × Nat)) :
    (c.assignAll assignments).table = (d.assignAll assignments).table := by
  induction assignments generalizing c d with
  | nil => exact h
  | cons first rest ih => exact ih (congrArg (·.setIfInBounds first.1 (entryOf first.2)) h)

/-- **Nothing is left over.** Counters that listen on pins are the same whatever they were before:
`c.listen pins = d.listen pins`. -/
theorem listen_congr (c d : Counters n) (pins : Vector Nat n) : c.listen pins = d.listen pins := by
  -- releasing all pins is what makes the tables equal; the counts are set to zero one by one
  have hrelease : c.release.table = d.release.table := Vector.ext fun pin _ => by
    simp [release]
  have htable : (c.listen pins).table = (d.listen pins).table :=
    table_assignAll_congr hrelease _
  have hcounts : (c.listen pins).counts = (d.listen pins).counts := Vector.ext fun channel hlt =>
    (counts_listen c pins ⟨channel, hlt⟩).trans (counts_listen d pins ⟨channel, hlt⟩).symm
  calc c.listen pins
      = ⟨(c.listen pins).table, (c.listen pins).counts⟩ := rfl
    _ = ⟨(d.listen pins).table, (d.listen pins).counts⟩ := by rw [htable, hcounts]
    _ = d.listen pins := rfl

/-- Pins with a fault are refused for that fault. -/
theorem refuses_of_fault {fault : Fault} (h : pinFault? pins.toList = some fault)
    (c : Counters n) : c.Refuses pins fault where
  fault_eq := by rw [fault_configure, h]
  counters_eq := configure_of_fault (by simp [h]) c
  levels_eq := by simp [configure, h, Notice.level]

/-- Pins without a fault are taken over. -/
theorem takesOver_of_binds (h : pinFault? pins.toList = none) (c : Counters n) :
    c.TakesOver pins where
  fault_eq := by rw [fault_configure, h]
  counters_eq other := by
    rw [configure_of_binds h, configure_of_binds h, listen_congr c other]
  counts_eq_zero channel := by
    rw [configure_of_binds h, counts_listen]
  bound?_eq_some_iff pin channel := by
    rw [configure_of_binds h, bound?_listen_eq_some_iff h]
  levels_eq := by simp [configure, h, Notice.level]

/-- **Every configuration.** Lists of pins pass the check when all pins are in range and no two are
equal, and otherwise have the fault of their first channel that does not fit. Counters refuse pins
for that fault, or take over pins that have none; either way as a whole. -/
theorem configure_cases :
    (∀ pins : List Nat,
      (pinFault? pins = none ↔ (∀ pin ∈ pins, pin < pinSpace) ∧ pins.Nodup) ∧
      ∀ fault, pinFault? pins = some fault ↔ FirstFault pins fault) ∧
    ∀ {n : Nat} (c : Counters n) (pins : Vector Nat n),
      (∀ fault, pinFault? pins.toList = some fault → c.Refuses pins fault) ∧
      (pinFault? pins.toList = none → c.TakesOver pins) := by
  constructor
  case left =>
    intro pins
    exact ⟨pinFault?_eq_none_iff pins, fun fault => pinFault?_eq_some_iff⟩
  case right =>
    intro n c pins
    exact ⟨fun fault h => refuses_of_fault h c, fun h => takesOver_of_binds h c⟩

/-- Counters that listen on three pins refuse a list that has one pin twice, and take over a list
that gives one of their pins to another channel. -/
theorem configure_cases_threePins :
    ((empty : Counters 3).listen #v[2, 7, 30]).Refuses #v[5, 9, 5] (.duplicateInputPin 5 0 2) ∧
      ((empty : Counters 3).listen #v[2, 7, 30]).TakesOver #v[7, 3, 31] := by
  have hfault : pinFault? #v[5, 9, 5].toList = some (.duplicateInputPin 5 0 2) := by
    decide
  have hpins : pinFault? #v[7, 3, 31].toList = none :=
    (configure_cases.1 _).1.mpr (by decide)
  have hcases := configure_cases.2 ((empty : Counters 3).listen #v[2, 7, 30])
  exact ⟨(hcases _).1 _ hfault, (hcases _).2 hpins⟩

end Tachometer.Counters
