import Tachometer.Proofs.Filter.Configured

/-! # Stray uses of a peak hold

A filter can be chosen by a number at every use, with a state that is handed over or kept back. One
number together with the state reaches a peak hold. All other uses are strays: they give an input
back as it is, print nothing and leave no trace in the state, so they drop out of a row of uses.

* `Kind.ofIndex_eq_peakHold_iff` — the one number.
* `Kind.applyWord`, `Kind.apply_ofBits` — one call on bit patterns.
* `Use`, `Use.perform` — one use, and what comes of it.
* `PeakHold.afterUses_filter`, `PeakHold.record_filter` — strays drop out of a row of uses.
* `PeakHold.Unseen`, `PeakHold.unseen` — what a row of uses does to a peak hold, and what it
  gives. -/

namespace Tachometer

/-! ## Kinds by number -/

namespace Kind

/-- **Numbers.** One number stands for a peak hold; all others, however large, for a filter that
passes its signal through: `ofIndex index = .peakHold ↔ index = 1`. -/
theorem ofIndex_eq_peakHold_iff {index : Nat} : ofIndex index = .peakHold ↔ index = 1 := by
  match index with
  | 0 | 1 => decide
  | index + 2 =>
    have hdefault : ofIndex (index + 2) = .passThrough := by
      simp [ofIndex, all, default]
    simp [hdefault]

/-- Feeds a bit pattern to a filter of a kind, and gives the state afterwards and the bit pattern of
the result. Where there is nothing to run the pattern is not looked at. -/
def applyWord (kind : Kind) (state : Option PeakHold) (word : UInt32) (now : Instant) :
    Option PeakHold × UInt32 :=
  match kind, state with
  | .peakHold, some p =>
    let p' := p.step (.ofBits word.toNat) now
    (some p', .ofNat p'.peak.toBits)
  | _, _ => (state, word)

/-- A kind works on bit patterns as it does on the numbers that they stand for. -/
theorem apply_ofBits (kind : Kind) (state : Option PeakHold) (word : UInt32) (now : Instant) :
    kind.apply state (.ofBits word.toNat) now =
      ((kind.applyWord state word now).1, .ofBits (kind.applyWord state word now).2.toNat) := by
  match kind, state with
  | .passThrough, _ | .peakHold, none => rfl
  | .peakHold, some p =>
    -- the peak is read back from its own pattern
    simp only [apply, applyWord]
    rw [UInt32.toNat_ofNat_of_lt' (Filter.toBits_lt _), Binary.ofBits_toBits]

end Kind

/-! ## Printed settings -/

/-- All settings are printed, also those whose rate no text gives: `∃ text, s.text? = some text`. -/
theorem PeakHold.Settings.exists_text?_eq_some (s : Settings) : ∃ text, s.text? = some text := by
  by_cases hfin : s.rate.isFinite = true
  · obtain ⟨text, htext, -⟩ := exists_text? hfin
    exact ⟨text, htext⟩
  · -- what is not finite is spelled in four characters at most
    have hrate : (Millionths.ofBinary s.rate).length ≤ 4 := by
      match s.rate, hfin with
      | .nan, _ => decide
      | .infinity negative, _ => cases negative <;> decide
    have hdelay := Millionths.length_render_le (by decide) (microseconds_div_lt s.delay)
    refine ⟨_, if_pos ?_⟩
    rw [chars, List.length_append, List.length_cons, maxLength]
    omega

/-! ## One use -/

/-- What a filter can be asked for. -/
inductive Request where
  /-- To take an input at a given time. -/
  | feed (input : Binary32) (now : Instant)
  /-- To print its settings. -/
  | print
  deriving DecidableEq, Repr

/-- What a filter answers. -/
inductive Answer where
  /-- The result for an input. -/
  | result (value : Binary32)
  /-- The settings text, if there is one. -/
  | text (text : Option String)
  deriving DecidableEq, Repr

/-- What a peak hold becomes by a request, and what it answers. -/
def PeakHold.serve (p : PeakHold) : Request → PeakHold × Answer
  | .feed input now => (p.step input now, .result (p.step input now).peak)
  | .print => (p, .text p.settings.text?)

/-- The answer to a request that nothing serves: an input comes back, and there is no text. -/
def Request.unserved : Request → Answer
  | .feed input _ => .result input
  | .print => .text none

/-- A use of a filter that is chosen by number. -/
structure Use where
  /-- The number of its kind. -/
  index : Nat
  /-- Whether the state is handed over. -/
  withState : Bool
  /-- What the filter is asked for. -/
  request : Request
  deriving DecidableEq, Repr

namespace Use

variable {use : Use}

/-- The kind of filter that is used. -/
def kind (use : Use) : Kind := .ofIndex use.index

/-- The state that is handed over, if it is. -/
def handed (use : Use) (p : PeakHold) : Option PeakHold := if use.withState then some p else none

/-- What comes of a use: the peak hold afterwards, and the answer. -/
def perform (use : Use) (p : PeakHold) : PeakHold × Answer :=
  match use.request with
  | .feed input now =>
    let done := use.kind.apply (use.handed p) input now
    (done.1.getD p, .result done.2)
  | .print => (p, .text (use.kind.print (use.handed p)))

/-- Whether a use reaches the peak hold; if not, it is a stray. -/
def reaches (use : Use) : Bool := use.index == 1 && use.withState

/-- **Reached.** The use of the right number with the state is served by the peak hold:
`use.perform p = p.serve use.request`. -/
theorem perform_of_reaches (h : use.reaches = true) (p : PeakHold) :
    use.perform p = p.serve use.request := by
  obtain ⟨hindex, hstate⟩ : use.index = 1 ∧ use.withState = true := by
    simpa [reaches] using h
  have hkind : use.kind = .peakHold := Kind.ofIndex_eq_peakHold_iff.mpr hindex
  have hhanded : use.handed p = some p := if_pos hstate
  rw [perform, hkind, hhanded]
  cases use.request <;> rfl

/-- There are two ways to stray: with another number, and without the state. -/
theorem kind_or_handed (h : use.reaches = false) (p : PeakHold) :
    use.kind = .passThrough ∨ use.handed p = none := by
  by_cases hindex : use.index = 1
  · have hstate : use.withState = false := by
      simpa [reaches, hindex] using h
    exact .inr (by simp [handed, hstate])
  · refine .inl ?_
    cases hkind : use.kind with
    | passThrough => rfl
    | peakHold => exact absurd (Kind.ofIndex_eq_peakHold_iff.mp hkind) hindex

/-- **Strays.** Nothing serves them, and the peak hold stays as it is:
`use.perform p = (p, use.request.unserved)`. -/
theorem perform_of_stray (h : use.reaches = false) (p : PeakHold) :
    use.perform p = (p, use.request.unserved) := by
  have hgetD : (use.handed p).getD p = p := by
    unfold handed
    split <;> rfl
  unfold perform
  rcases use.kind_or_handed h p with hkind | hhanded
  · rw [hkind]
    cases use.request with
    | feed input now => exact Prod.ext hgetD rfl
    | print => rfl
  · rw [hhanded]
    cases use.request with
    | feed input now =>
      dsimp only
      rw [Kind.apply_none]
      rfl
    | print => cases use.kind <;> rfl

/-- A stray does not even look at the bits of its input. -/
theorem applyWord_of_stray (h : use.reaches = false) (p : PeakHold) (word : UInt32)
    (now : Instant) : use.kind.applyWord (use.handed p) word now = (use.handed p, word) := by
  rcases use.kind_or_handed h p with hkind | hhanded
  · rw [hkind]
    rfl
  · rw [hhanded]
    cases use.kind <;> rfl

/-- No use changes the settings: `(use.perform p).1.settings = p.settings`. -/
@[simp] theorem settings_perform (use : Use) (p : PeakHold) :
    (use.perform p).1.settings = p.settings := by
  cases h : use.reaches with
  | false => rw [perform_of_stray h]
  | true =>
    rw [perform_of_reaches h]
    cases use.request with
    | feed input now => exact p.settings_step input now
    | print => rfl

/-- The input that a use feeds to the peak hold, if it does. -/
def call? (use : Use) : Option (Binary32 × Instant) :=
  match use.request with
  | .feed input now => if use.reaches then some (input, now) else none
  | .print => none

end Use

/-! ## Rows of uses -/

/-- One line of the record of a row of uses. -/
structure Entry where
  /-- The use. -/
  use : Use
  /-- The answer to it. -/
  answer : Answer
  /-- The peak hold after it. -/
  state : PeakHold
  deriving DecidableEq, Repr

namespace PeakHold

/-- The peak hold after a row of uses, oldest first. -/
def afterUses (p : PeakHold) (uses : List Use) : PeakHold :=
  uses.foldl (fun p use => (use.perform p).1) p

/-- The record of a row of uses. -/
def record (p : PeakHold) : List Use → List Entry
  | [] => []
  | use :: uses => ⟨use, (use.perform p).2, (use.perform p).1⟩ :: (use.perform p).1.record uses

/-- No uses change nothing: `p.afterUses [] = p`. -/
@[simp] theorem afterUses_nil (p : PeakHold) : p.afterUses [] = p := rfl

/-- Uses are made in order: `p.afterUses (use :: uses) = (use.perform p).1.afterUses uses`. -/
@[simp] theorem afterUses_cons (p : PeakHold) (use : Use) (uses : List Use) :
    p.afterUses (use :: uses) = (use.perform p).1.afterUses uses := rfl

/-- No uses leave no record: `p.record [] = []`. -/
@[simp] theorem record_nil (p : PeakHold) : p.record [] = [] := rfl

/-- The record starts with the first use, its answer and the peak hold after it, and goes on from
there. -/
@[simp] theorem record_cons (p : PeakHold) (use : Use) (uses : List Use) :
    p.record (use :: uses) =
      ⟨use, (use.perform p).2, (use.perform p).1⟩ :: (use.perform p).1.record uses := rfl

/-- No uses change the settings: `(p.afterUses uses).settings = p.settings`. -/
@[simp] theorem settings_afterUses (p : PeakHold) (uses : List Use) :
    (p.afterUses uses).settings = p.settings := by
  induction uses generalizing p with
  | nil => rfl
  | cons use uses ih => rw [afterUses_cons, ih, Use.settings_perform]

/-- A line of the record tells what came of its use after the uses before it. -/
theorem getElem?_record (p : PeakHold) {uses : List Use} {i : Nat} {use : Use}
    (h : uses[i]? = some use) :
    (p.record uses)[i]? = some ⟨use, (use.perform (p.afterUses (uses.take i))).2,
      (use.perform (p.afterUses (uses.take i))).1⟩ := by
  induction uses generalizing p i with
  | nil => exact absurd h (by simp)
  | cons first uses ih =>
    cases i with
    | zero =>
      obtain rfl := Option.some.inj h
      rfl
    | succ i => exact ih (first.perform p).1 h

/-- **Strays drop out** of a row of uses: the state is that after the others alone. -/
theorem afterUses_filter (p : PeakHold) (uses : List Use) :
    p.afterUses (uses.filter Use.reaches) = p.afterUses uses := by
  induction uses generalizing p with
  | nil => rfl
  | cons use uses ih =>
    cases h : use.reaches with
    | true => rw [List.filter_cons_of_pos h, afterUses_cons, afterUses_cons, ih]
    | false =>
      rw [List.filter_cons_of_neg (by simp [h]), afterUses_cons, Use.perform_of_stray h, ih]

/-- They drop out of the record as well: the answers to the others, and the states after them, are
those of a row without strays. -/
theorem record_filter (p : PeakHold) (uses : List Use) :
    p.record (uses.filter Use.reaches) =
      (p.record uses).filter fun entry => entry.use.reaches := by
  induction uses generalizing p with
  | nil => rfl
  | cons use uses ih =>
    cases h : use.reaches with
    | true =>
      rw [List.filter_cons_of_pos h, record_cons, record_cons,
        List.filter_cons_of_pos (by exact h), ih]
    | false =>
      rw [List.filter_cons_of_neg (by simp [h]), record_cons, List.filter_cons_of_neg (by simp [h]),
        Use.perform_of_stray h, ih]

/-- What is left are the calls of the peak hold:
`p.afterUses uses = p.run (uses.filterMap Use.call?)`. -/
theorem afterUses_eq_run (p : PeakHold) (uses : List Use) :
    p.afterUses uses = p.run (uses.filterMap Use.call?) := by
  induction uses generalizing p with
  | nil => rfl
  | cons use uses ih =>
    obtain ⟨index, withState, request⟩ := use
    rw [afterUses_cons, ih]
    cases h : Use.reaches ⟨index, withState, request⟩ with
    | false =>
      have hcall : Use.call? ⟨index, withState, request⟩ = none := by
        cases request <;> simp [Use.call?, h]
      rw [Use.perform_of_stray h, List.filterMap_cons_none hcall]
    | true =>
      rw [Use.perform_of_reaches h]
      cases request with
      | feed input now =>
        have hcall : Use.call? ⟨index, withState, .feed input now⟩ = some (input, now) := by
          simp [Use.call?, h]
        rw [List.filterMap_cons_some hcall]
        rfl
      | print => rfl

/-- What a row of uses does to a peak hold, and what it gives. -/
structure Unseen (p : PeakHold) (uses : List Use) : Prop where
  /-- The peak hold ends as after the uses alone that reach it. -/
  afterUses_eq : p.afterUses uses = p.afterUses (uses.filter Use.reaches)
  /-- These are answered as if they were alone, and leave the peak hold in the same states. -/
  record_eq : (p.record uses).filter (fun entry => entry.use.reaches) =
    p.record (uses.filter Use.reaches)
  /-- Their inputs are calls of the peak hold. -/
  run_eq : p.afterUses uses = p.run (uses.filterMap Use.call?)
  /-- A stray input comes back, and the peak hold is afterwards as it was before. -/
  stray : ∀ (i : Nat) (use : Use) input now, uses[i]? = some use → use.reaches = false →
    use.request = .feed input now →
      (p.record uses)[i]? = some ⟨use, .result input, p.afterUses (uses.take i)⟩
  /-- Bit patterns are used as the numbers that they stand for. -/
  word : ∀ use ∈ uses, ∀ (q : PeakHold) (word : UInt32) (now : Instant),
    use.kind.apply (use.handed q) (.ofBits word.toNat) now =
      ((use.kind.applyWord (use.handed q) word now).1,
        .ofBits (use.kind.applyWord (use.handed q) word now).2.toNat)
  /-- Of a stray one every bit comes back, also where many stand for what is not a number. -/
  strayWord : ∀ use ∈ uses, use.reaches = false → ∀ (q : PeakHold) (word : UInt32) (now : Instant),
    use.kind.applyWord (use.handed q) word now = (use.handed q, word)
  /-- A text is printed exactly for uses that reach the peak hold, and it is always the same. -/
  texts : ∃ text, ∀ (i : Nat) (use : Use), uses[i]? = some use → use.request = .print →
    (p.record uses)[i]? =
      some ⟨use, .text (if use.reaches then some text else none), p.afterUses (uses.take i)⟩

/-- **Strays are not seen.** Whatever the peak hold is, and however its uses and strays follow each
other, at any times. -/
theorem unseen (p : PeakHold) (uses : List Use) : Unseen p uses := by
  constructor
  case afterUses_eq => exact (p.afterUses_filter uses).symm
  case record_eq => exact (p.record_filter uses).symm
  case run_eq => exact p.afterUses_eq_run uses
  case stray =>
    intro i use input now hi hstray hrequest
    rw [p.getElem?_record hi, Use.perform_of_stray hstray, hrequest]
    rfl
  case word =>
    intro use _ q word now
    exact Kind.apply_ofBits use.kind (use.handed q) word now
  case strayWord =>
    intro use _ hstray q word now
    exact Use.applyWord_of_stray hstray q word now
  case texts =>
    obtain ⟨text, htext⟩ := p.settings.exists_text?_eq_some
    refine ⟨text, fun i use hi hrequest => ?_⟩
    rw [p.getElem?_record hi]
    cases h : use.reaches with
    | false =>
      rw [Use.perform_of_stray h, hrequest]
      rfl
    | true =>
      rw [Use.perform_of_reaches h, hrequest, serve, settings_afterUses, htext]
      rfl

/-- Strays at later times do not shorten the drop of the next use that reaches the peak hold. -/
example : ((start ⟨.round false 2, 0⟩ ⟨0⟩).record
    [⟨1, true, .feed (.round false 10) ⟨0⟩⟩, ⟨0, true, .feed (.round false 30) ⟨50000000⟩⟩,
      ⟨1, false, .feed (.round false 20) ⟨90000000⟩⟩, ⟨7, true, .print⟩,
      ⟨1, true, .feed 0 ⟨100000000⟩⟩, ⟨1, true, .print⟩]).map Entry.answer =
    [.result (.round false 10), .result (.round false 30), .result (.round false 20), .text none,
      .result (.round false 8), .text (some "2.000000,0.000000")] := by
  decide +kernel

end PeakHold

end Tachometer
