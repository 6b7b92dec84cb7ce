import Tachometer.Board.Layout
import Tachometer.Relay.Station
import Tachometer.Wave.Bank

/-! # The board at work

The station of the board, wired to its bank of wave generators.

* `Board.bank` — the generators.
* `Board.start` — the station as it starts, with everything that is reported and asked of the
  hardware on the way. -/

namespace Tachometer.Board

/-- The wave generators of the board at a given system clock. -/
def bank (clock : Nat) : Wave.Bank := ⟨clock, outputPins⟩

/-- The calls for a row of commands, in order. -/
def perform (clock : Nat) (commands : List Command) : List Wave.Call :=
  commands.flatMap (bank clock).perform

/-- What came of starting the board. -/
structure Startup where
  /-- The running station, or why it was refused. -/
  result : Except Fault (Station fanCount outputCount)
  /-- What was asked of the hardware: every output off. -/
  calls : List Wave.Call
  /-- What was reported. -/
  notices : List Notice

/-- Starts the board: takes over the input pins, switches the outputs off, and links them. -/
def start (clock : Nat) (now : Instant) : Startup :=
  let inputs := Counters.empty.configure inputPins
  let setup := Route.ofLinks fanCount links now
  { result := setup.result.map fun routes =>
      ⟨inputs.counters, .start now Sampler.usualLength, routes, .off⟩
    calls := perform clock (Targets.offCommands outputCount)
    notices := inputs.notices ++ setup.notices }

end Tachometer.Board
