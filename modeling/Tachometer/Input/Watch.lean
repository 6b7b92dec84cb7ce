import Tachometer.Input.Counters

/-! # Watching an input pin

One task per input waits for the counted edge on its pin, for ever, and counts each one.

* `Watch.setup` — what the task does to the pin before it waits.
* `Watch.run` — the counters after the task has seen a signal.
* `Watch.actions` — all that the task does while it sees a signal, one action after the other. -/

namespace Tachometer

/-- What is done to the hardware of an input pin. -/
inductive PinSetup where
  /-- The pin becomes an input with a pull-up: tachometer outputs only pull down. -/
  | inputPullUp (pin : Nat)
  deriving DecidableEq, Repr

/-- A task that counts the edges of one kind on one pin. -/
structure Watch where
  /-- The pin that is watched. -/
  pin : Nat
  /-- The kind of edge that counts. -/
  edge : Edge
  deriving DecidableEq, Repr

namespace Watch

variable {n : Nat}

/-- The set-up of the pin, once, at the start. -/
def setup (w : Watch) : List PinSetup := [.inputPullUp w.pin]

/-- The counters after the level on the pin has changed once. It is assumed of the waiting that each
edge of the awaited kind ends it once, that other changes do not, and that no edge is lost while the
one before is being counted. -/
def see (w : Watch) (c : Counters n) (change : Edge) : Counters n :=
  if change = w.edge then c.edge w.pin else c

/-- The counters after a signal: the changes of the level on the pin, oldest first. -/
def run (w : Watch) (c : Counters n) (signal : List Edge) : Counters n :=
  signal.foldl w.see c

/-! ## Actions -/

/-- What a watch can do. -/
inductive Action where
  /-- It sets up the hardware of a pin. -/
  | setUp (setup : PinSetup)
  /-- It counts an edge on a pin. -/
  | count (pin : Nat)
  deriving DecidableEq, Repr

/-- The counters after an action: to set up a pin counts nothing. -/
def Action.apply (c : Counters n) : Action → Counters n
  | .setUp _ => c
  | .count pin => c.edge pin

/-- What a watch does when the level on its pin has changed once. -/
def respond (w : Watch) (change : Edge) : List Action :=
  if change = w.edge then [.count w.pin] else []

/-- What a watch does in all: it sets up its pin, and then it responds to each change of a signal,
oldest first. -/
def actions (w : Watch) (signal : List Edge) : List Action :=
  w.setup.map .setUp ++ signal.flatMap w.respond

/-- No changes count nothing: `w.run c [] = c`. -/
@[simp] theorem run_nil (w : Watch) (c : Counters n) : w.run c [] = c := rfl

/-- A signal is seen change by change:
`w.run c (change :: signal) = w.run (w.see c change) signal`. -/
@[simp] theorem run_cons (w : Watch) (c : Counters n) (change : Edge) (signal : List Edge) :
    w.run c (change :: signal) = w.run (w.see c change) signal := rfl

end Watch

end Tachometer
