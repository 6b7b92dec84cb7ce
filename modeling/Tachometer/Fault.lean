/-! # Faults

Every reason for which an operation is refused, with three texts.

* `Fault.code` — the name of the fault alone.
* `Fault.detail` — the name with its data, as it stands in notices.
* `Fault.message` — a sentence for the reader. -/

namespace Tachometer

/-- Why an operation was refused. -/
inductive Fault where
  /-- Two input channels claim one pin. -/
  | duplicateInputPin (pin first second : Nat)
  /-- An input channel's pin has no entry in the pin table. -/
  | inputPinOutOfRange (pin channel : Nat)
  /-- A filter was asked for without the settings it needs. -/
  | missingFilterSettings
  /-- The settings text of a filter is not in its format. -/
  | malformedFilterSettings
  /-- Settings were read for a filter that has none. -/
  | filterTakesNoSettings
  /-- A frequency was set on an output that does not exist. -/
  | outputChannelOutOfRange (channel : Nat)
  /-- An output is linked to a fan that does not exist. -/
  | sourceChannelOutOfRange (channel : Nat)
  deriving DecidableEq, Repr

namespace Fault

/-- The name of a fault. -/
def code : Fault → String
  | .duplicateInputPin .. => "DuplicateInputPin"
  | .inputPinOutOfRange .. => "InputPinOutOfRange"
  | .missingFilterSettings => "MissingFilterArgs"
  | .malformedFilterSettings => "MalformedFilterArgs"
  | .filterTakesNoSettings => "FilterTakesNoArgs"
  | .outputChannelOutOfRange _ => "OutputChannelOutOfRange"
  | .sourceChannelOutOfRange _ => "SourceChannelOutOfRange"

/-- The name of a fault followed by its data: labelled in braces, or alone in parentheses. -/
def detail (fault : Fault) : String :=
  match fault with
  | .duplicateInputPin pin first second =>
    fault.code ++ s!" \x7b pin: {pin}, first: {first}, second: {second} \x7d"
  | .inputPinOutOfRange pin channel =>
    fault.code ++ s!" \x7b pin: {pin}, channel: {channel} \x7d"
  | .outputChannelOutOfRange channel | .sourceChannelOutOfRange channel =>
    fault.code ++ s!"({channel})"
  | _ => fault.code

/-- What a fault means, in a sentence. -/
def message : Fault → String
  | .duplicateInputPin pin first second =>
    s!"Tacho input pin {pin} is claimed by both channel {first} and channel {second}"
  | .inputPinOutOfRange pin channel =>
    s!"Tacho input pin {pin} (channel {channel}) is outside the addressable pin space"
  | .missingFilterSettings => "Filter requires arguments but none were given"
  | .malformedFilterSettings => "Filter arguments could not be parsed"
  | .filterTakesNoSettings => "Selected filter takes no arguments"
  | .outputChannelOutOfRange channel => s!"Tacho output channel {channel} does not exist"
  | .sourceChannelOutOfRange channel => s!"Tacho input channel {channel} does not exist"

end Fault

end Tachometer
