import Tachometer.Input.Pins
import Tachometer.Notice

/-! # Pulse counters

Every input channel has a 32-bit counter that wraps around, and a table of eight-bit entries finds
the channel of a pin.

* `Counters.configure` — takes over a new list of pins, or refuses it and changes nothing.
* `Counters.edge` — counts an edge on a pin; pins without a channel count nowhere.
* `Counters.burst_eq_edges` — many edges at once count as they do one by one.
* `Counters.channel?`, `Counters.count?` — what is bound where, and how far it got.
* `Counters.snapshot` — how far all channels got. -/

namespace Tachometer

/-- Counters of `n` input channels. -/
structure Counters (n : Nat) where
  /-- The entry of each pin: the number of its channel plus one, or `unbound`. -/
  table : Vector UInt8 pinSpace
  /-- The edges counted on each channel. -/
  counts : Vector UInt32 n
  deriving DecidableEq, Repr

namespace Counters

variable {n : Nat}

/-- The entry of a pin without a channel. -/
def unbound : UInt8 := 0

/-- The entry of a pin that has a channel, in eight bits. -/
def entryOf (channel : Nat) : UInt8 := .ofNat channel + 1

/-- Counters that listen on no pin. -/
def empty : Counters n where
  table := Vector.replicate pinSpace unbound
  counts := Vector.replicate n 0

/-! ## Tables -/

/-- Takes the channel from every pin; what was counted stays. -/
def release (c : Counters n) : Counters n :=
  { c with table := c.table.map fun _ => unbound }

/-- Gives a pin to a channel, whatever the pin had before, and sets the channel's counter to
zero. -/
def assign (c : Counters n) (pin channel : Nat) : Counters n where
  table := c.table.setIfInBounds pin (entryOf channel)
  counts := c.counts.setIfInBounds channel 0

/-- Makes several assignments of a pin to a channel, one after the other. -/
def assignAll (c : Counters n) (assignments : List (Nat × Nat)) : Counters n :=
  assignments.foldl (fun c (pin, channel) => c.assign pin channel) c

/-- Gives every channel its pin, in order, after all pins were released. -/
def listen (c : Counters n) (pins : Vector Nat n) : Counters n :=
  c.release.assignAll pins.toList.zipIdx

/-- The number that the table has for a pin, if the pin has a channel. -/
def bound? (c : Counters n) (pin : Nat) : Option Nat :=
  match c.table[pin]? with
  | some entry => if entry = unbound then none else some (entry.toNat - 1)
  | none => none

/-- The channel that listens on a pin. -/
def channel? (c : Counters n) (pin : Nat) : Option (Fin n) :=
  (c.bound? pin).bind fun channel => if h : channel < n then some ⟨channel, h⟩ else none

/-! ## Configuration -/

/-- What came of a configuration. -/
structure Configuration (n : Nat) where
  /-- The counters afterwards. -/
  counters : Counters n
  /-- Why it was refused, if it was. -/
  fault : Option Fault
  /-- What was reported. -/
  notices : List Notice

/-- Takes over the pins of all channels and starts counting from zero. Pins with a fault are
refused as a whole, and the counters stay as they were. -/
def configure (c : Counters n) (pins : Vector Nat n) : Configuration n :=
  match pinFault? pins.toList with
  | some fault => ⟨c, some fault, [.inputsRejected fault]⟩
  | none => ⟨c.listen pins, none, [.inputsConfigured n]⟩

/-! ## Counting -/

/-- Counts an edge on a pin. -/
def edge (c : Counters n) (pin : Nat) : Counters n :=
  match c.channel? pin with
  | some channel => { c with counts := c.counts.set channel (c.counts[channel] + 1) }
  | none => c

/-- Counts an edge on each pin of a list. -/
def edges (c : Counters n) (pins : List Nat) : Counters n :=
  pins.foldl edge c

/-- Counts a number of edges on one pin. -/
def burst (c : Counters n) (pin times : Nat) : Counters n :=
  match c.channel? pin with
  | some channel =>
    { c with counts := c.counts.set channel (c.counts[channel] + .ofNat times) }
  | none => c

/-- The edges counted on a channel, if there is such a channel. -/
def count? (c : Counters n) (channel : Nat) : Option UInt32 :=
  c.counts[channel]?

/-- The edges counted on all channels: every counter is read, one after the other. -/
def snapshot (c : Counters n) : Vector UInt32 n := .ofFn fun channel => c.counts[channel]

/-- The pins that have a channel, in ascending order, each with its channel. -/
def bindings (c : Counters n) : List (Nat × Fin n) :=
  (List.range pinSpace).filterMap fun pin => (c.channel? pin).map (pin, ·)

/-- A snapshot holds every count as it stands: `c.snapshot = c.counts`. -/
@[simp] theorem snapshot_eq (c : Counters n) : c.snapshot = c.counts := by
  ext channel hlt
  simp [snapshot]

/-- Counters that listen on no pin have no channel for any: `empty.channel? pin = none`. -/
@[simp] theorem channel?_empty (pin : Nat) : (empty : Counters n).channel? pin = none := by
  have h : (empty : Counters n).bound? pin = none := by
    simp only [bound?, empty, Vector.getElem?_replicate]
    split <;> simp_all
  simp [channel?, h]

/-- No assignments change nothing: `c.assignAll [] = c`. -/
@[simp] theorem assignAll_nil (c : Counters n) : c.assignAll [] = c := rfl

/-- Several assignments are made in order:
`c.assignAll ((pin, channel) :: rest) = (c.assign pin channel).assignAll rest`. -/
@[simp] theorem assignAll_cons (c : Counters n) (pin channel : Nat) (rest : List (Nat × Nat)) :
    c.assignAll ((pin, channel) :: rest) = (c.assign pin channel).assignAll rest := rfl

/-- No edges count nothing: `c.edges [] = c`. -/
@[simp] theorem edges_nil (c : Counters n) : c.edges [] = c := rfl

/-- Several edges are counted in order: `c.edges (pin :: pins) = (c.edge pin).edges pins`. -/
@[simp] theorem edges_cons (c : Counters n) (pin : Nat) (pins : List Nat) :
    c.edges (pin :: pins) = (c.edge pin).edges pins := rfl

/-- An edge does not change which pins have channels: `(c.edge pin).table = c.table`. -/
@[simp] theorem table_edge (c : Counters n) (pin : Nat) : (c.edge pin).table = c.table := by
  unfold edge
  split <;> rfl

/-- The channel of a pin depends on the table only: `c.channel? pin = d.channel? pin`. -/
theorem channel?_congr {c d : Counters n} (h : c.table = d.table) (pin : Nat) :
    c.channel? pin = d.channel? pin := by
  simp [channel?, bound?, h]

/-- An edge on a pin of a channel adds one to its counter, which may wrap around:
`c.edge pin = { c with counts := c.counts.set channel (c.counts[channel] + 1) }`. -/
theorem edge_of_channel?_eq_some {c : Counters n} {pin : Nat} {channel : Fin n}
    (h : c.channel? pin = some channel) :
    c.edge pin = { c with counts := c.counts.set channel (c.counts[channel] + 1) } := by
  simp [edge, h]

/-- An edge on a pin without a channel changes nothing: `c.edge pin = c`. -/
theorem edge_of_channel?_eq_none {c : Counters n} {pin : Nat} (h : c.channel? pin = none) :
    c.edge pin = c := by
  simp [edge, h]

/-- A burst is a row of single edges: `c.burst pin times = c.edges (List.replicate times pin)`. -/
theorem burst_eq_edges (c : Counters n) (pin times : Nat) :
    c.burst pin times = c.edges (List.replicate times pin) := by
  induction times generalizing c with
  | zero =>
    unfold burst
    split <;> simp
  | succ times ih =>
    rw [List.replicate_succ, edges_cons, ← ih]
    cases h : c.channel? pin with
    | none =>
      simp [burst, edge_of_channel?_eq_none h, h]
    | some channel =>
      have ht : (c.edge pin).channel? pin = some channel := by
        rw [channel?_congr (table_edge c pin), h]
      simp only [burst, h, ht]
      simp [edge_of_channel?_eq_some h, UInt32.add_assoc,
        UInt32.add_comm 1 (UInt32.ofNat times)]

end Counters

end Tachometer
