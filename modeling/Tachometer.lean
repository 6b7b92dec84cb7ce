import Tachometer.Binary.Arithmetic
import Tachometer.Binary.Bits
import Tachometer.Board.Wiring
import Tachometer.Input.Watch
import Tachometer.Wave.Machine
import Tachometer.Proofs.Binary.Order
import Tachometer.Proofs.Binary.Magnitude
import Tachometer.Proofs.Binary.Nearest
import Tachometer.Proofs.Binary.Rounding
import Tachometer.Proofs.Binary.Arithmetic
import Tachometer.Proofs.Binary.Distance
import Tachometer.Proofs.Binary.Halfway
import Tachometer.Proofs.Clock.Ticks
import Tachometer.Proofs.Clock.Microseconds
import Tachometer.Proofs.Clock.Rereading
import Tachometer.Proofs.Decimal.Numeral
import Tachometer.Proofs.Decimal.Millionths
import Tachometer.Proofs.Decimal.SixPlaces
import Tachometer.Proofs.Input.Pins
import Tachometer.Proofs.Input.Binding
import Tachometer.Proofs.Input.Configuring
import Tachometer.Proofs.Measure.Meter
import Tachometer.Proofs.Measure.Conservation
import Tachometer.Proofs.Measure.Frequency
import Tachometer.Proofs.Measure.Pace
import Tachometer.Proofs.Measure.Measured
import Tachometer.Proofs.Filter.PeakHold
import Tachometer.Proofs.Filter.Settings
import Tachometer.Proofs.Filter.Printing
import Tachometer.Proofs.Filter.Configured
import Tachometer.Proofs.Filter.Lifting
import Tachometer.Proofs.Filter.DropTime
import Tachometer.Proofs.Filter.HoldWindow
import Tachometer.Proofs.Filter.Highest
import Tachometer.Proofs.Filter.Maximum
import Tachometer.Proofs.Filter.Stalling
import Tachometer.Proofs.Relay.Targets
import Tachometer.Proofs.Relay.Links
import Tachometer.Proofs.Relay.Refinement
import Tachometer.Proofs.Relay.Envelope
import Tachometer.Proofs.Relay.Unfiltered
import Tachometer.Proofs.Relay.History
import Tachometer.Proofs.Relay.Isolation
import Tachometer.Proofs.Relay.Origin
import Tachometer.Proofs.Relay.Reports
import Tachometer.Proofs.Wave.Generate
import Tachometer.Proofs.Wave.Discipline
import Tachometer.Proofs.Wave.Words
import Tachometer.Proofs.Wave.Countdown
import Tachometer.Proofs.Board.Mirror
import Tachometer.Proofs.Board.FanWatches
import Tachometer.Proofs.Filter.StrayUses
import Tachometer.Proofs.Filter.HoldDelay
import Tachometer.Proofs.Filter.DelayRange
import Tachometer.Proofs.Wave.Period
