import Tachometer.Fault
import Tachometer.Filter.Settings

/-! # Kinds of filter

Filters are chosen by name or by number. Whatever is not known passes its signal through.

* `Kind.ofName`, `Kind.ofIndex` — the kind of a name, in any case, or of a number.
* `Kind.read`, `Kind.print` — the state of a filter of a kind from its settings, and back.
* `Kind.apply` — one call of a filter of a kind on a state that may belong to it. -/

namespace Tachometer

/-- The kinds of filter. -/
inductive Kind where
  /-- The signal passes unchanged. -/
  | passThrough
  /-- The peak of the signal is held, and then drops. -/
  | peakHold
  deriving DecidableEq, Repr

namespace Kind

instance : Inhabited Kind := ⟨passThrough⟩

/-- All kinds, in the order of their numbers. -/
def all : List Kind := [.passThrough, .peakHold]

/-- The name of a kind. -/
def name : Kind → String
  | .passThrough => "none"
  | .peakHold => "lossypeak"

/-- The number of a kind. -/
def index : Kind → Nat
  | .passThrough => 0
  | .peakHold => 1

/-- Whether two names are equal up to the case of the letters `A` to `Z`. -/
def sameName (a b : String) : Bool := a.toList.map Char.toLower == b.toList.map Char.toLower

/-- The kind of a name. -/
def ofName (name : String) : Kind :=
  (all.find? fun kind => sameName kind.name name).getD default

/-- The kind of a number. -/
def ofIndex (index : Nat) : Kind := all.getD index default

/-- Kinds come back from their numbers: `ofIndex kind.index = kind`. -/
@[simp] theorem ofIndex_index (kind : Kind) : ofIndex kind.index = kind := by
  cases kind <;> rfl

/-! ## States -/

/-- The state of a fresh filter, from its settings text. -/
def read (kind : Kind) (text : Option String) (now : Instant) : Except Fault PeakHold :=
  match kind, text with
  | .passThrough, _ => .error .filterTakesNoSettings
  | .peakHold, none => .error .missingFilterSettings
  | .peakHold, some text =>
    match PeakHold.Settings.ofText? text with
    | some settings => .ok (.start settings now)
    | none => .error .malformedFilterSettings

/-- The settings text of a state, if it belongs to a filter of this kind. -/
def print (kind : Kind) (state : Option PeakHold) : Option String :=
  match kind, state with
  | .peakHold, some p => p.settings.text?
  | _, _ => none

/-- Feeds an input to a filter of this kind, and gives the state afterwards and the result. Where
there is nothing to run the input comes back as it is. -/
def apply (kind : Kind) (state : Option PeakHold) (input : Binary32) (now : Instant) :
    Option PeakHold × Binary32 :=
  match kind, state with
  | .peakHold, some p =>
    let p' := p.step input now
    (some p', p'.peak)
  | _, _ => (state, input)

/-- A pass-through gives back its input and leaves the state alone, whatever that is:
`passThrough.apply state input now = (state, input)`. -/
@[simp] theorem apply_passThrough (state : Option PeakHold) (input : Binary32) (now : Instant) :
    passThrough.apply state input now = (state, input) := rfl

/-- Without a state every kind gives back its input: `kind.apply none input now = (none, input)`. -/
@[simp] theorem apply_none (kind : Kind) (input : Binary32) (now : Instant) :
    kind.apply none input now = (none, input) := by
  cases kind <;> rfl

/-- With a state a peak hold takes one step and gives the peak after it:
`peakHold.apply (some p) input now = (some (p.step input now), (p.step input now).peak)`. -/
@[simp] theorem apply_peakHold (p : PeakHold) (input : Binary32) (now : Instant) :
    peakHold.apply (some p) input now = (some (p.step input now), (p.step input now).peak) := rfl

end Kind

end Tachometer
