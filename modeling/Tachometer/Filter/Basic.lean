import Tachometer.Filter.Kind
import Tachometer.Notice

/-! # Filters

A filter owns its state.

* `Filter.create` — a filter of a kind from its settings text.
* `Filter.configured` — a filter from a name and a settings text; refused settings are reported,
  and the signal is not filtered.
* `Filter.apply` — one call. -/

namespace Tachometer

/-- A filter with its state. -/
inductive Filter where
  /-- The signal passes unchanged. -/
  | passThrough
  /-- The peak of the signal is held, and then drops. -/
  | peakHold (state : PeakHold)
  deriving DecidableEq, Repr

namespace Filter

instance : Inhabited Filter := ⟨passThrough⟩

/-- The kind of a filter. -/
def kind : Filter → Kind
  | .passThrough => .passThrough
  | .peakHold _ => .peakHold

/-- The state of a filter, if filters of its kind have one. -/
def state? : Filter → Option PeakHold
  | .passThrough => none
  | .peakHold p => some p

/-- The settings text of a filter, if it has settings. -/
def text? (filter : Filter) : Option String := filter.kind.print filter.state?

/-- A fresh filter of a kind. A filter that passes its signal through needs no settings and
ignores them. -/
def create (kind : Kind) (text : Option String) (now : Instant) : Except Fault Filter :=
  match kind with
  | .passThrough => .ok .passThrough
  | .peakHold => (Kind.peakHold.read text now).map .peakHold

/-- Feeds an input to a filter, and gives the filter afterwards and the result. -/
def apply (filter : Filter) (input : Binary32) (now : Instant) : Filter × Binary32 :=
  match filter with
  | .passThrough => (.passThrough, input)
  | .peakHold p =>
    let p' := p.step input now
    (.peakHold p', p'.peak)

/-! ## Configuration -/

/-- What came of configuring a filter. -/
structure Configuration where
  /-- The filter. -/
  filter : Filter
  /-- What was reported. -/
  notices : List Notice

/-- A fresh filter from the name of its kind and its settings text. -/
def configured (name text : String) (now : Instant) : Configuration :=
  let kind := Kind.ofName name
  match create kind (some text) now with
  | .ok filter => ⟨filter, []⟩
  | .error fault => ⟨.passThrough, [.filterRejected kind.name fault]⟩

/-- A call does not change what kind of filter it is:
`(filter.apply input now).1.kind = filter.kind`. -/
@[simp] theorem kind_apply (filter : Filter) (input : Binary32) (now : Instant) :
    (filter.apply input now).1.kind = filter.kind := by
  cases filter <;> rfl

/-- A call does not change the settings text: `(filter.apply input now).1.text? = filter.text?`. -/
@[simp] theorem text?_apply (filter : Filter) (input : Binary32) (now : Instant) :
    (filter.apply input now).1.text? = filter.text? := by
  cases filter <;> simp [apply, text?, kind, state?, Kind.print]

/-- A filter works as its kind does on its state. -/
theorem kind_apply_state? (filter : Filter) (input : Binary32) (now : Instant) :
    filter.kind.apply filter.state? input now =
      ((filter.apply input now).1.state?, (filter.apply input now).2) := by
  cases filter <;> rfl

end Filter

end Tachometer
