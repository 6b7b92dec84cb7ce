import Tachometer.Binary.Arithmetic

/-! # Speed and pulse frequency

A fan gives a fixed number of pulses per revolution, so its speed and its pulse frequency are
proportional.

* `revolutionsPerMinute`, `pulseFrequency` — one from the other. -/

namespace Tachometer

/-- The speed, in revolutions per minute, of a fan with a given pulse frequency in hertz. A fan
without pulses has no speed to measure and counts as standing still. -/
def revolutionsPerMinute (frequency : Binary64) (pulsesPerRevolution : Nat) : Binary64 :=
  if pulsesPerRevolution = 0 then 0
  else frequency * .ofNat 60 / .ofNat pulsesPerRevolution

/-- The pulse frequency, in hertz, of a fan at a given speed in revolutions per minute. -/
def pulseFrequency (speed : Binary64) (pulsesPerRevolution : Nat) : Binary64 :=
  speed * .ofNat pulsesPerRevolution / .ofNat 60

/-- A fan without pulses has no speed, whatever its frequency:
`revolutionsPerMinute frequency 0 = 0`. -/
@[simp] theorem revolutionsPerMinute_zero (frequency : Binary64) :
    revolutionsPerMinute frequency 0 = 0 := rfl

end Tachometer
