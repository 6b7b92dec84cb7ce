import Tachometer.Clock
import Tachometer.Fault

/-! # Notices

Operations report what happened as notices, oldest first. A notice holds its cause; its level and
its text are read off it.

* `Notice.level` — how serious a notice is.
* `Notice.text?` — the text of a notice that is meant for a reader; notices for debugging carry
  their data only. -/

namespace Tachometer

/-- How serious a notice is. -/
inductive Level where
  | error
  | warn
  | info
  | debug
  | trace
  deriving DecidableEq, Repr

/-- The word for a level. -/
def Level.name : Level → String
  | .error => "ERROR"
  | .warn => "WARN"
  | .info => "INFO"
  | .debug => "DEBUG"
  | .trace => "TRACE"

/-- Something an operation has to report. -/
inductive Notice where
  /-- The pins of the inputs were refused. -/
  | inputsRejected (fault : Fault)
  /-- The pins of `count` inputs were taken over. -/
  | inputsConfigured (count : Nat)
  /-- The settings of a filter were refused, so its signal is not filtered. -/
  | filterRejected (filter : String) (fault : Fault)
  /-- An output is linked to a fan that does not exist. -/
  | missingFan (source : Nat)
  /-- An output follows a fan through a filter. -/
  | outputLinked (output source : Nat) (filter : String)
  /-- An output refused its new frequency. -/
  | outputNotUpdated (output : Nat) (fault : Fault)
  /-- An output has a new frequency. -/
  | outputChanged (output : Nat) (frequency : Binary64)
  /-- A window was long enough, and every input has a new frequency. -/
  | sampleTaken (window : Span) (frequencies : List Binary64)
  deriving DecidableEq, Repr

namespace Notice

/-- How serious a notice is. -/
def level : Notice → Level
  | .inputsRejected _ => .error
  | .inputsConfigured _ => .info
  | .filterRejected .. => .warn
  | .missingFan _ => .error
  | .outputLinked .. => .info
  | .outputNotUpdated .. => .warn
  | .outputChanged .. => .debug
  | .sampleTaken .. => .trace

/-- The text of a notice, if it is meant for a reader. -/
def text? : Notice → Option String
  | .inputsRejected fault =>
    some ("Rejected tacho input configuration: " ++ fault.detail)
  | .inputsConfigured count => some s!"Configured {count} tacho inputs"
  | .filterRejected filter fault =>
    some (s!"Bad arguments for filter {filter}: " ++ fault.detail ++ ", not filtering")
  | .missingFan source => some s!"Tacho output linked to missing fan {source}"
  | .outputLinked output source filter =>
    some s!"tacho output {output} <- fan {source} (filter: {filter})"
  | .outputNotUpdated output fault =>
    some (s!"tacho output {output} not updated: " ++ fault.detail)
  | .outputChanged .. | .sampleTaken .. => none

end Notice

end Tachometer
