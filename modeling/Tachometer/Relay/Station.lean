import Tachometer.Relay.Route
import Tachometer.Relay.Targets

/-! # The relay station

A station counts the pulses of `n` fans, measures their frequencies, and repeats them on `m`
outputs.

* `Station.tick` — one round: take a reading, and if it closes a window, feed every filter once
  and set every target.
* `Station.respond` — what comes of any event.
* `Station.after`, `Station.commands` — the station after a row of events, and everything that
  was sent to the generator on the way. -/

namespace Tachometer

/-- A station that repeats the frequencies of `n` fans on `m` outputs. -/
structure Station (n m : Nat) where
  /-- Counts the pulses of the fans. -/
  counters : Counters n
  /-- Measures the fans. -/
  sampler : Sampler n
  /-- The route of each output. -/
  routes : Vector Route m
  /-- The targets of the outputs. -/
  targets : Targets m
  deriving DecidableEq, Repr

/-- What can happen to a station of `n` fans. -/
inductive Event (n : Nat) where
  /-- The pins of the fans are chosen. -/
  | configure (pins : Vector Nat n)
  /-- There is an edge on a pin. -/
  | edge (pin : Nat)
  /-- It is time for a round. -/
  | tick (now : Instant)
  /-- The target of an output is set directly. -/
  | set (channel : Nat) (wanted : Binary64)
  deriving DecidableEq, Repr

namespace Station

variable {n m : Nat}

/-- A station that listens on no pin, with all outputs off. -/
def start (sampler : Sampler n) (routes : Vector Route m) : Station n m :=
  ⟨.empty, sampler, routes, .off⟩

/-- What came of an event. -/
structure Response (n m : Nat) where
  /-- The station afterwards. -/
  station : Station n m
  /-- Whether a round closed a window. -/
  accepted : Bool := false
  /-- Why the event was refused, if it was. -/
  fault : Option Fault := none
  /-- What is sent to the generator, in order. -/
  commands : List Command := []
  /-- What was reported. -/
  notices : List Notice := []

/-! ## Single events -/

/-- The frequencies that fed routes want for their outputs, each with its output. -/
def wanted (fed : Vector (Route × Binary64) m) : List (Nat × Binary64) :=
  fed.toList.zipIdx.map fun (fed, output) => (output, fed.2)

/-- Feeds every filter once with the frequencies that a reading has brought, and sets the outputs
in order. -/
def serve (s : Station n m) (reading : Sampler.Reading n) (now : Instant) : Response n m :=
  let fed := s.routes.map (Route.feed reading.sampler now)
  let round := s.targets.setAll (wanted fed)
  { station := ⟨s.counters, reading.sampler, fed.map (·.1), round.targets⟩
    accepted := true
    commands := round.commands
    notices := reading.notices ++ round.notices }

/-- Takes a reading of the counters. If it closes a window, the outputs are served; otherwise
nothing changes. -/
def tick (s : Station n m) (now : Instant) : Response n m :=
  let reading := s.sampler.read s.counters now
  if reading.accepted then s.serve reading now
  else { station := s, notices := reading.notices }

/-- Sets the target of an output directly. -/
def set (s : Station n m) (channel : Nat) (wanted : Binary64) : Response n m :=
  let change := s.targets.set channel wanted
  { station := { s with targets := change.targets }
    fault := change.fault
    commands := change.commands
    notices := change.notices }

/-- Chooses the pins of the fans. -/
def configure (s : Station n m) (pins : Vector Nat n) : Response n m :=
  let done := s.counters.configure pins
  { station := { s with counters := done.counters }
    fault := done.fault
    notices := done.notices }

/-- What comes of an event. -/
def respond (s : Station n m) : Event n → Response n m
  | .configure pins => s.configure pins
  | .edge pin => { station := { s with counters := s.counters.edge pin } }
  | .tick now => s.tick now
  | .set channel wanted => s.set channel wanted

/-! ## Rows of events -/

/-- The station after a row of events, oldest first. -/
def after (s : Station n m) (events : List (Event n)) : Station n m :=
  events.foldl (fun s event => (s.respond event).station) s

/-- Everything that is sent to the generator in a row of events. -/
def commands (s : Station n m) : List (Event n) → List Command
  | [] => []
  | event :: events =>
    let response := s.respond event
    response.commands ++ response.station.commands events

/-- No events change nothing: `s.after [] = s`. -/
@[simp] theorem after_nil (s : Station n m) : s.after [] = s := rfl

/-- A run goes on from the response to its first event:
`s.after (event :: events) = (s.respond event).station.after events`. -/
@[simp] theorem after_cons (s : Station n m) (event : Event n) (events : List (Event n)) :
    s.after (event :: events) = (s.respond event).station.after events := rfl

/-- No events send nothing: `s.commands [] = []`. -/
@[simp] theorem commands_nil (s : Station n m) : s.commands [] = [] := rfl

/-- A run sends what its first event sends, and then what the rest does: `s.commands (event ::
events) = (s.respond event).commands ++ (s.respond event).station.commands events`. -/
@[simp] theorem commands_cons (s : Station n m) (event : Event n) (events : List (Event n)) :
    s.commands (event :: events) =
      (s.respond event).commands ++ (s.respond event).station.commands events := rfl

/-- A round that closes no window does nothing at all: `s.tick now = { station := s }`. -/
theorem tick_of_window?_eq_none {s : Station n m} {now : Instant}
    (h : s.sampler.window? now = none) : s.tick now = { station := s } := by
  simp [tick, Sampler.read_eq, Sampler.update_of_window?_eq_none h]

/-- A round that closes a window serves the outputs with its reading:
`s.tick now = s.serve (s.sampler.update s.counters.counts now) now`. -/
theorem tick_of_window?_eq_some {s : Station n m} {now : Instant} {window : Span}
    (h : s.sampler.window? now = some window) :
    s.tick now = s.serve (s.sampler.update s.counters.counts now) now := by
  simp [tick, Sampler.read_eq, Sampler.update_of_window?_eq_some h]

/-- A round reads the counters and does not change them:
`(s.tick now).station.counters = s.counters`. -/
@[simp] theorem counters_tick (s : Station n m) (now : Instant) :
    (s.tick now).station.counters = s.counters := by
  cases h : s.sampler.window? now with
  | none => rw [tick_of_window?_eq_none h]
  | some window => rw [tick_of_window?_eq_some h]; rfl

end Station

end Tachometer
