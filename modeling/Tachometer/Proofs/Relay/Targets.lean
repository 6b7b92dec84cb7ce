import Tachometer.Relay.Targets
import Tachometer.Proofs.Binary.Order

/-! # What the targets become

A target is kept when the wanted frequency has the same value, so it could differ from the wanted
one in the sign of a zero. No target that was ever set is a negative zero, and so every target is
exactly the frequency wanted last.

* `usable` — what an output is given is finite and not negative.
* `Sanitizes` — what an output is given for a wanted frequency, one kind of number at a time.
* `Targets.Unsigned` — no target has a negative sign.
* `Targets.frequencies_setAll` — after several changes each target is the last one wanted for its
  output. -/

namespace Tachometer

/-! ## Usable frequencies -/

/-- An output is given the wanted frequency or none. -/
theorem usable_eq (frequency : Binary64) :
    (usable frequency = frequency ∧ frequency.isFinite = true ∧ 0 < frequency) ∨
      usable frequency = 0 ∧ ¬(frequency.isFinite = true ∧ 0 < frequency) := by
  unfold usable
  split
  · exact .inl ⟨rfl, ‹_›⟩
  · exact .inr ⟨rfl, ‹_›⟩

/-- What an output is given has no negative sign: `(usable frequency).negative = false`. -/
@[simp] theorem negative_usable (frequency : Binary64) : (usable frequency).negative = false := by
  obtain ⟨h, -, hpos⟩ | ⟨h, -⟩ := usable_eq frequency
  · rw [h]
    exact Binary.negative_of_pos hpos
  · rw [h]
    rfl

/-- What an output is given is finite: `(usable frequency).isFinite = true`. -/
@[simp] theorem isFinite_usable (frequency : Binary64) :
    (usable frequency).isFinite = true := by
  obtain ⟨h, hfin, -⟩ | ⟨h, -⟩ := usable_eq frequency
  · rw [h, hfin]
  · rw [h]
    rfl

/-- What an output is given for a wanted frequency: itself if it is a positive finite number, and
otherwise `0`, which switches the output off. -/
structure Sanitizes (wanted given : Binary64) : Prop where
  /-- What is not a number switches the output off, -/
  nan : wanted = .nan → given = 0
  /-- and so does an infinity of either sign, -/
  infinity : ∀ negative, wanted = .infinity negative → given = 0
  /-- and so do the zeros and what is negative. -/
  nonpos : wanted ≤ 0 → given = 0
  /-- A positive finite number is given as it is. -/
  finite : wanted.isFinite = true → 0 < wanted → given = wanted

/-- **Sanitizing.** Every number is of one of these kinds, so that they leave the output nothing but
the usable frequency: `Sanitizes wanted given ↔ given = usable wanted`. -/
theorem sanitizes_iff {wanted given : Binary64} :
    Sanitizes wanted given ↔ given = usable wanted := by
  constructor
  · intro h
    obtain ⟨heq, hfin, hpos⟩ | ⟨heq, hnot⟩ := usable_eq wanted
    · rw [heq, h.finite hfin hpos]
    · rw [heq]
      -- a finite number that is not positive is not above zero
      cases hkind : wanted with
      | nan => exact h.nan hkind
      | infinity negative => exact h.infinity negative hkind
      | finite negative rank =>
        have hfin : wanted.isFinite = true := by rw [hkind]; rfl
        have hpos : ¬0 < wanted := fun hpos => hnot ⟨hfin, hpos⟩
        exact h.nonpos ((Binary.not_lt Binary.zero_ne_nan (Binary.ne_nan_of_isFinite hfin)).mp hpos)
  · rintro rfl
    constructor
    case nan => rintro rfl; rfl
    case infinity => rintro negative rfl; rfl
    case nonpos =>
      intro hle
      have hnot : ¬(wanted.isFinite = true ∧ 0 < wanted) := fun h =>
        Binary.lt_irrefl _ (Binary.lt_of_lt_of_le h.2 hle)
      exact if_neg hnot
    case finite => exact fun hfin hpos => if_pos ⟨hfin, hpos⟩

namespace Targets

variable {m : Nat}

/-! ## One change -/

/-- No target has a negative sign, so the only zero is the positive one. -/
def Unsigned (t : Targets m) : Prop :=
  ∀ channel : Fin m, (t.frequencies.get channel).negative = false

/-- Outputs that are off have the target zero: `(off : Targets m).frequencies.get output = 0`. -/
@[simp] theorem get_off (output : Fin m) : (off : Targets m).frequencies.get output = 0 :=
  Vector.getElem_replicate output.isLt

/-- Outputs that are off have targets without a minus: `(off : Targets m).Unsigned`. -/
theorem unsigned_off : (off : Targets m).Unsigned := by
  intro channel
  rw [get_off]
  rfl

/-- **One change.** Among unsigned targets a change sets the target of its output and no other. -/
theorem frequencies_set {t : Targets m} (ht : t.Unsigned) (channel : Nat) (wanted : Binary64)
    (output : Fin m) :
    (t.set channel wanted).targets.frequencies.get output =
      if channel = output.val then usable wanted else t.frequencies.get output := by
  by_cases h : channel < m
  · simp only [set, h, ↓reduceDIte]
    split
    case isTrue hsame =>
      -- the target is kept: it has the same value, and the same sign
      have heq := Binary.eq_of_sameValue hsame ((ht ⟨channel, h⟩).trans (negative_usable _).symm)
      split
      case isTrue hout =>
        obtain rfl : output = ⟨channel, h⟩ := Fin.ext hout.symm
        exact heq
      case isFalse => rfl
    case isFalse => exact Vector.getElem_set h output.isLt
  · rw [set_of_le (Nat.not_lt.mp h), if_neg]
    have := output.isLt
    omega

/-- A change gives no target a minus: `(t.set channel wanted).targets.Unsigned`. -/
theorem Unsigned.set {t : Targets m} (ht : t.Unsigned) (channel : Nat) (wanted : Binary64) :
    (t.set channel wanted).targets.Unsigned := by
  intro output
  rw [frequencies_set ht]
  split
  · exact negative_usable wanted
  · exact ht output

/-! ## Several changes -/

/-- No changes give a target a minus: `(t.setAll changes).targets.Unsigned`. -/
theorem Unsigned.setAll {t : Targets m} (ht : t.Unsigned) (changes : List (Nat × Binary64)) :
    (t.setAll changes).targets.Unsigned := by
  induction changes generalizing t with
  | nil => exact ht
  | cons change rest ih => exact ih (ht.set change.1 change.2)

/-- The frequency that was wanted last for an output, if there was one. -/
def lastWanted? (changes : List (Nat × Binary64)) (output : Nat) : Option Binary64 :=
  (changes.filterMap fun change => if change.1 = output then some change.2 else none).getLast?

/-- The frequencies that were wanted for an output, in order. -/
def wantedFor (changes : List (Nat × Binary64)) (output : Nat) : List Binary64 :=
  changes.filterMap fun change => if change.1 = output then some change.2 else none

/-- Without changes nothing is wanted: `wantedFor [] output = []`. -/
@[simp] theorem wantedFor_nil (output : Nat) : wantedFor [] output = [] := rfl

/-- The first change wants something for its own output and nothing for the others: `wantedFor
((channel, wanted) :: rest) output = if channel = output then wanted :: wantedFor rest output else
wantedFor rest output`. -/
theorem wantedFor_cons (channel : Nat) (wanted : Binary64) (rest : List (Nat × Binary64))
    (output : Nat) :
    wantedFor ((channel, wanted) :: rest) output =
      if channel = output then wanted :: wantedFor rest output else wantedFor rest output := by
  unfold wantedFor
  by_cases h : channel = output
  · rw [if_pos h, List.filterMap_cons, if_pos h]
  · rw [if_neg h, List.filterMap_cons, if_neg h]

/-- What was wanted last is the last of what was wanted:
`(wantedFor changes output).getLast? = lastWanted? changes output`. -/
theorem getLast?_wantedFor (changes : List (Nat × Binary64)) (output : Nat) :
    (wantedFor changes output).getLast? = lastWanted? changes output := rfl

/-- The first change counts for its own output only, and there only if no later one does. -/
theorem lastWanted?_cons (channel : Nat) (wanted : Binary64) (rest : List (Nat × Binary64))
    (output : Nat) :
    lastWanted? ((channel, wanted) :: rest) output =
      if channel = output then some ((lastWanted? rest output).getD wanted)
      else lastWanted? rest output := by
  rw [← getLast?_wantedFor, wantedFor_cons]
  by_cases h : channel = output
  · rw [if_pos h, if_pos h, List.getLast?_cons, getLast?_wantedFor]
  · rw [if_neg h, if_neg h, getLast?_wantedFor]

/-- When every output is wanted once, in order, what is wanted for an output is its own
frequency. -/
theorem wantedFor_zipIdx {α : Type} (frequency : α → Binary64) (sources : List α)
    (first output : Nat) :
    wantedFor ((sources.zipIdx first).map fun (source, index) => (index, frequency source)) output =
      (if first ≤ output then sources[output - first]?.map frequency else none).toList := by
  induction sources generalizing first with
  | nil => simp
  | cons source sources ih =>
    -- later places in the list belong to later outputs
    rw [List.zipIdx_cons, List.map_cons, wantedFor_cons, ih (first + 1)]
    rcases Nat.lt_trichotomy first output with h | h | h
    · rw [if_neg h.ne, if_pos (Nat.succ_le_of_lt h), if_pos h.le]
      obtain ⟨gap, rfl⟩ := Nat.exists_eq_add_of_lt h
      rw [show first + gap + 1 - first = gap + 1 by omega, List.getElem?_cons_succ]
      congr 3
      omega
    · subst h
      rw [if_pos rfl, if_neg (Nat.not_succ_le_self _), if_pos le_rfl, Nat.sub_self]
      rfl
    · rw [if_neg h.ne', if_neg (by omega), if_neg (Nat.not_le.mpr h)]

/-- **Several changes.** The target of an output becomes the frequency that was wanted last for
it. -/
theorem frequencies_setAll {t : Targets m} (ht : t.Unsigned) (changes : List (Nat × Binary64))
    (output : Fin m) :
    (t.setAll changes).targets.frequencies.get output =
      ((lastWanted? changes output).map usable).getD (t.frequencies.get output) := by
  induction changes generalizing t with
  | nil => rfl
  | cons change rest ih =>
    obtain ⟨channel, wanted⟩ := change
    rw [setAll, ih (ht.set channel wanted), frequencies_set ht, lastWanted?_cons]
    by_cases h : channel = output.val
    · rw [if_pos h, if_pos h]
      cases lastWanted? rest output <;> rfl
    · rw [if_neg h, if_neg h]

end Targets

end Tachometer
