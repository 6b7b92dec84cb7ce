import Tachometer.Measure.Sampler
import Tachometer.Proofs.Input.Binding

/-! # Counters and sampler at work

A meter is a set of counters with the sampler that reads them. What it measures depends on the
order in which configurations, edges, readings and resets come. Here that order is made explicit:
the log of a run says what happened and whether it was accepted, and the state of the meter is
read off the log.

* `Meter.respond`, `Meter.after` — one event, and a run of events.
* `Meter.log` — what happened in a run.
* `Meter.edgesIn` — the edges in the window that is open at the end of a log.
* `Meter.samples` — what was measured in a run.
* `Meter.pins?_log`, `Meter.opened_after` — the bound pins and the start of the open window. -/

namespace Tachometer

/-- Counters and the sampler that reads them. -/
structure Meter (n : Nat) where
  /-- Counts the pulses. -/
  counters : Counters n
  /-- Takes readings of the counters. -/
  sampler : Sampler n
  deriving DecidableEq, Repr

namespace Meter

variable {n : Nat}

/-! ## Runs -/

/-- What can happen to a meter. -/
inductive Event (n : Nat) where
  /-- Something happens to the counters alone. -/
  | count (event : Counters.Event n)
  /-- The sampler reads the counters. -/
  | update (now : Instant)
  /-- The sampler starts over. -/
  | reset (now : Instant)
  deriving DecidableEq, Repr

/-- A meter that listens on no pin and opens its first window at `opened`. -/
def start (opened : Instant) (minLength : Span) : Meter n := ⟨.empty, .start opened minLength⟩

/-- What comes of a reading of the counters. -/
def read (m : Meter n) (now : Instant) : Sampler.Reading n :=
  m.sampler.read m.counters now

/-- A meter reads its counters as they stand: `m.read now = m.sampler.update m.counters.counts
now`. -/
theorem read_eq (m : Meter n) (now : Instant) :
    m.read now = m.sampler.update m.counters.counts now :=
  Sampler.read_eq m.sampler m.counters now

/-- The meter after an event. -/
def respond (m : Meter n) : Event n → Meter n
  | .count event => { m with counters := m.counters.respond event }
  | .update now => { m with sampler := (m.read now).sampler }
  | .reset now => { m with sampler := m.sampler.reset now }

/-- Whether an event is accepted: a configuration without a fault, a reading that closes a
window, an edge or a reset in any case. -/
def accepts (m : Meter n) : Event n → Bool
  | .count (.configure pins) => (m.counters.configure pins).fault.isNone
  | .update now => (m.read now).accepted
  | _ => true

/-- The meter after a run of events, oldest first. -/
def after (m : Meter n) (events : List (Event n)) : Meter n := events.foldl respond m

/-- No events change nothing: `m.after [] = m`. -/
@[simp] theorem after_nil (m : Meter n) : m.after [] = m := rfl

/-- A run goes on from its first event:
`m.after (event :: events) = (m.respond event).after events`. -/
@[simp] theorem after_cons (m : Meter n) (event : Event n) (events : List (Event n)) :
    m.after (event :: events) = (m.respond event).after events := rfl

/-- The last event of a run comes after the run before it:
`m.after (events ++ [event]) = (m.after events).respond event`. -/
@[simp] theorem after_concat (m : Meter n) (events : List (Event n)) (event : Event n) :
    m.after (events ++ [event]) = (m.after events).respond event := by
  simp [after]

/-! ## Logs -/

/-- An event of a run, and whether it was accepted. -/
structure Record (n : Nat) where
  /-- What happened. -/
  event : Event n
  /-- Whether it was accepted. -/
  accepted : Bool
  deriving DecidableEq, Repr

/-- The records of a run, oldest first. -/
def log (m : Meter n) : List (Event n) → List (Record n)
  | [] => []
  | event :: events => ⟨event, m.accepts event⟩ :: (m.respond event).log events

namespace Record

/-- The pins that were bound, if a configuration was accepted. -/
def binds? : Record n → Option (Vector Nat n)
  | ⟨.count (.configure pins), true⟩ => some pins
  | _ => none

/-- Whether a configuration was accepted. -/
def isBinding (r : Record n) : Bool := r.binds?.isSome

/-- The time at which a window was opened: by an accepted reading, which closes the one before,
or by a reset. -/
def opens? : Record n → Option Instant
  | ⟨.update now, true⟩ => some now
  | ⟨.reset now, _⟩ => some now
  | _ => none

/-- Whether a reading was taken, accepted or not. -/
def isUpdate : Record n → Bool
  | ⟨.update _, _⟩ => true
  | _ => false

/-- Whether a reading closed a window. -/
def isSample : Record n → Bool
  | ⟨.update _, true⟩ => true
  | _ => false

/-- Whether the sampler started over. -/
def isReset : Record n → Bool
  | ⟨.reset _, _⟩ => true
  | _ => false

/-- Whether the pulses from here on belong together with none of those before: a reading closed a
window, or a configuration set the counters to zero. -/
def cuts (r : Record n) : Bool := r.isSample || r.isBinding

/-- The record of an edge. -/
def edge (pin : Nat) : Record n := ⟨.count (.edge pin), true⟩

/-- An edge is not a sample: `(edge pin).isSample = false`. -/
@[simp] theorem isSample_edge (pin : Nat) : (edge pin : Record n).isSample = false := rfl

/-- An edge is not a configuration: `(edge pin).isBinding = false`. -/
@[simp] theorem isBinding_edge (pin : Nat) : (edge pin : Record n).isBinding = false := rfl

/-- An edge is not a reset: `(edge pin).isReset = false`. -/
@[simp] theorem isReset_edge (pin : Nat) : (edge pin : Record n).isReset = false := rfl

/-- An edge belongs together with those before it: `(edge pin).cuts = false`. -/
@[simp] theorem cuts_edge (pin : Nat) : (edge pin : Record n).cuts = false := rfl

end Record

/-- The pins that are bound at the end of a log. -/
def pins? (records : List (Record n)) : Option (Vector Nat n) :=
  (records.filterMap Record.binds?).getLast?

/-- The time at which the window was opened that is open at the end of a log. -/
def opened (start : Instant) (records : List (Record n)) : Instant :=
  ((records.filterMap Record.opens?).getLast?).getD start

/-- Whether no record of a log from position `first` on cuts the pulses apart. -/
def uncutFrom (records : List (Record n)) (first : Nat) : Bool :=
  (records.drop first).all fun r => !r.cuts

/-- Whether at a place of a log there is an edge on a pin that is not cut off from the end. -/
def isOpenEdge (records : List (Record n)) (pin place : Nat) : Bool :=
  records[place]? = some (.edge pin) && uncutFrom records (place + 1)

/-- The edges on a pin that are not cut off from the end of a log. -/
def edgesIn (records : List (Record n)) (pin : Nat) : Nat :=
  (List.range records.length).countP (isOpenEdge records pin)

/-- The edges of a channel that are not cut off from the end of a log: those on its pin, if it
has one. -/
def pulsesIn (records : List (Record n)) (channel : Fin n) : Nat :=
  match pins? records with
  | some pins => edgesIn records (pins.get channel)
  | none => 0

/-- No events leave no records: `m.log [] = []`. -/
@[simp] theorem log_nil (m : Meter n) : m.log [] = [] := rfl

/-- A log starts with the record of the first event and goes on from there:
`m.log (event :: events) = ⟨event, m.accepts event⟩ :: (m.respond event).log events`. -/
@[simp] theorem log_cons (m : Meter n) (event : Event n) (events : List (Event n)) :
    m.log (event :: events) = ⟨event, m.accepts event⟩ :: (m.respond event).log events := rfl

/-- The log of a longer run goes on where that of the shorter one ends. -/
theorem log_append (m : Meter n) (first second : List (Event n)) :
    m.log (first ++ second) = m.log first ++ (m.after first).log second := by
  induction first generalizing m with
  | nil => rfl
  | cons event events ih => simp [ih]

/-- A log ends with the record of the last event:
`m.log (events ++ [event]) = m.log events ++ [⟨event, (m.after events).accepts event⟩]`. -/
@[simp] theorem log_concat (m : Meter n) (events : List (Event n)) (event : Event n) :
    m.log (events ++ [event]) = m.log events ++ [⟨event, (m.after events).accepts event⟩] := by
  simp [log_append]

/-- A log has a record for each event: `(m.log events).length = events.length`. -/
@[simp] theorem length_log (m : Meter n) (events : List (Event n)) :
    (m.log events).length = events.length := by
  induction events generalizing m with
  | nil => rfl
  | cons event events ih => simp [ih]

/-- The log of the first events of a run is the first part of the run's log:
`(m.log events).take count = m.log (events.take count)`. -/
theorem take_log (m : Meter n) (events : List (Event n)) (count : Nat) :
    (m.log events).take count = m.log (events.take count) := by
  induction count generalizing m events with
  | zero => simp
  | succ count ih =>
    cases events with
    | nil => simp
    | cons event events => simp [ih]

/-- The record at a place tells what the meter makes of the event at that place. -/
theorem getElem?_log (m : Meter n) (events : List (Event n)) (place : Nat) :
    (m.log events)[place]? =
      (events[place]?).map fun event => ⟨event, (m.after (events.take place)).accepts event⟩ := by
  induction place generalizing m events with
  | zero => cases events <;> simp
  | succ place ih => cases events <;> simp [ih]

/-! ## Logs that grow -/

/-- One more record binds its pins, or those stay that were bound:
`pins? (records ++ [r]) = r.binds?.or (pins? records)`. -/
theorem pins?_concat (records : List (Record n)) (r : Record n) :
    pins? (records ++ [r]) = r.binds?.or (pins? records) := by
  cases h : r.binds? <;> simp [pins?, h]

/-- One more record opens a window, or the one that was open stays open:
`opened start (records ++ [r]) = r.opens?.getD (opened start records)`. -/
theorem opened_concat (start : Instant) (records : List (Record n)) (r : Record n) :
    opened start (records ++ [r]) = r.opens?.getD (opened start records) := by
  cases h : r.opens? <;> simp [opened, h]

/-- A longer log is not cut from a place on if the shorter one is not and the new record does not
cut: `uncutFrom (records ++ [r]) first = (uncutFrom records first && !r.cuts)`. -/
theorem uncutFrom_concat {records : List (Record n)} {first : Nat} (h : first ≤ records.length)
    (r : Record n) : uncutFrom (records ++ [r]) first = (uncutFrom records first && !r.cuts) := by
  simp [uncutFrom, List.drop_append_of_le_length h]

/-- An open edge stays one until a record cuts it off:
`isOpenEdge (records ++ [r]) pin place = (isOpenEdge records pin place && !r.cuts)`. -/
theorem isOpenEdge_concat {records : List (Record n)} {place : Nat} (h : place < records.length)
    (r : Record n) (pin : Nat) :
    isOpenEdge (records ++ [r]) pin place = (isOpenEdge records pin place && !r.cuts) := by
  simp [isOpenEdge, List.getElem?_append_left h, uncutFrom_concat h, Bool.and_assoc]

/-- The last record is an open edge exactly if it is an edge:
`isOpenEdge (records ++ [r]) pin records.length = decide (r = .edge pin)`. -/
theorem isOpenEdge_concat_length (records : List (Record n)) (r : Record n) (pin : Nat) :
    isOpenEdge (records ++ [r]) pin records.length = decide (r = .edge pin) := by
  simp [isOpenEdge, uncutFrom]

/-- **One more record.** A record that cuts the pulses apart leaves no edge in the window; any
other adds an edge exactly when it is the record of one. -/
theorem edgesIn_concat (records : List (Record n)) (r : Record n) (pin : Nat) :
    edgesIn (records ++ [r]) pin =
      if r.cuts then 0 else edgesIn records pin + if r = .edge pin then 1 else 0 := by
  have hcongr : (List.range records.length).countP (isOpenEdge (records ++ [r]) pin) =
      (List.range records.length).countP fun place => isOpenEdge records pin place && !r.cuts := by
    apply List.countP_congr
    intro place hp
    rw [isOpenEdge_concat (List.mem_range.mp hp)]
  unfold edgesIn
  rw [List.length_append, List.length_singleton, List.range_succ, List.countP_append,
    List.countP_singleton, isOpenEdge_concat_length, hcongr]
  cases hc : r.cuts with
  | true =>
    have hne : r ≠ .edge pin := by
      rintro rfl
      exact absurd hc (by simp)
    simp [hne]
  | false => simp

/-- A record that cuts the pulses apart leaves no pulse in the window:
`pulsesIn (records ++ [r]) channel = 0`. -/
theorem pulsesIn_concat_of_cuts {r : Record n} (h : r.cuts = true) (records : List (Record n))
    (channel : Fin n) : pulsesIn (records ++ [r]) channel = 0 := by
  unfold pulsesIn
  split
  · rw [edgesIn_concat, if_pos h]
  · rfl

/-- A record that neither cuts the pulses apart nor is an edge changes no number of pulses:
`pulsesIn (records ++ [r]) channel = pulsesIn records channel`. -/
theorem pulsesIn_concat_of_not_edge {r : Record n} (hc : r.cuts = false)
    (he : ∀ pin, r ≠ .edge pin) (records : List (Record n)) (channel : Fin n) :
    pulsesIn (records ++ [r]) channel = pulsesIn records channel := by
  have hb : r.binds? = none := by
    simp only [Record.cuts, Record.isBinding, Bool.or_eq_false_iff, Option.isSome_eq_false_iff,
      Option.isNone_iff_eq_none] at hc
    exact hc.2
  unfold pulsesIn
  rw [pins?_concat, hb, Option.none_or]
  cases pins? records with
  | none => rfl
  | some pins => simp [edgesIn_concat, hc, he]

/-- An edge is a pulse of the channel whose pin it is on. -/
theorem pulsesIn_concat_edge (records : List (Record n)) (pin : Nat) (channel : Fin n) :
    pulsesIn (records ++ [.edge pin]) channel =
      pulsesIn records channel +
        if (pins? records).any (fun pins => pins.get channel = pin) then 1 else 0 := by
  unfold pulsesIn
  rw [pins?_concat, show (Record.edge pin : Record n).binds? = none from rfl, Option.none_or]
  cases pins? records with
  | none => rfl
  | some pins =>
    by_cases h : pins.get channel = pin
    · simp [edgesIn_concat, h]
    · have hne : (Record.edge pin : Record n) ≠ .edge (pins.get channel) := by
        simp [Record.edge, Ne.symm h]
      simp [edgesIn_concat, h, hne]

/-! ## Samples -/

/-- What an accepted reading has measured. -/
structure Sample (n : Nat) where
  /-- The time of the reading. -/
  time : Instant
  /-- The frequencies over the window that it closed. -/
  frequencies : Vector Binary64 n
  deriving DecidableEq, Repr

/-- The sample that an event brings, if it is an accepted reading. -/
def sample? (m : Meter n) : Event n → Option (Sample n)
  | .update now =>
    if (m.read now).accepted then some ⟨now, (m.read now).sampler.frequencies⟩ else none
  | _ => none

/-- The samples of a run, oldest first. -/
def samples (m : Meter n) : List (Event n) → List (Sample n)
  | [] => []
  | event :: events => (m.sample? event).toList ++ (m.respond event).samples events

/-- No events bring no samples: `m.samples [] = []`. -/
@[simp] theorem samples_nil (m : Meter n) : m.samples [] = [] := rfl

/-- The samples of a run are those of its first event and then those of the rest:
`m.samples (event :: events) = (m.sample? event).toList ++ (m.respond event).samples events`. -/
@[simp] theorem samples_cons (m : Meter n) (event : Event n) (events : List (Event n)) :
    m.samples (event :: events) = (m.sample? event).toList ++ (m.respond event).samples events :=
  rfl

/-- The samples of a longer run go on where those of the shorter one end. -/
theorem samples_append (m : Meter n) (first second : List (Event n)) :
    m.samples (first ++ second) = m.samples first ++ (m.after first).samples second := by
  induction first generalizing m with
  | nil => rfl
  | cons event events ih => simp [ih]

/-! ## The state at the end of a log -/

/-- What an event means to the counters, if it means something to them. -/
def Event.counts? : Event n → Option (Counters.Event n)
  | .count event => some event
  | _ => none

/-- What happened to the counters in a run. -/
def counted (events : List (Event n)) : List (Counters.Event n) := events.filterMap Event.counts?

/-- The counters do not notice the sampler. -/
theorem counters_after (m : Meter n) (events : List (Event n)) :
    (m.after events).counters = m.counters.after (counted events) := by
  induction events generalizing m with
  | nil => rfl
  | cons event events ih =>
    rw [after_cons, ih]
    cases event <;> rfl

/-- The record of an event binds the pins that the counters take over. -/
theorem binds?_record (m : Meter n) (event : Event n) :
    (⟨event, m.accepts event⟩ : Record n).binds? = event.counts?.bind Counters.Event.binds? := by
  cases event with
  | count event =>
    cases event with
    | configure pins =>
      rw [accepts, Counters.fault_configure]
      by_cases h : pinFault? pins.toList = none
      · simp [Record.binds?, Event.counts?, Counters.Event.binds?, h]
      · simp [Record.binds?, Event.counts?, Counters.Event.binds?, h]
    | edge pin => rfl
  | update now => rfl
  | reset now => rfl

/-- The log and the history of the counters agree on the bound pins:
`pins? (m.log events) = Counters.configured? (counted events)`. -/
theorem pins?_log (m : Meter n) (events : List (Event n)) :
    pins? (m.log events) = Counters.configured? (counted events) := by
  induction events using List.reverseRecOn with
  | nil => rfl
  | append_singleton events event ih =>
    rw [log_concat, pins?_concat, binds?_record, ih]
    cases h : event.counts? with
    | none => simp [h, counted]
    | some event => simp [h, counted, Counters.configured?_concat]

/-- **Bindings.** A pin is bound to a channel exactly when the log has it as the channel's pin. -/
theorem bound?_after_iff (opened : Instant) (minLength : Span) (events : List (Event n))
    (pin : Nat) (channel : Fin n) :
    ((start opened minLength : Meter n).after events).counters.bound? pin = some channel.val ↔
      (pins? ((start opened minLength : Meter n).log events)).any
        (fun pins => pins.get channel = pin) = true := by
  rw [counters_after, pins?_log]
  exact Counters.bound?_after_iff_any (counted events) pin channel

/-- **The open window.** The sampler's window was opened when the log says so. -/
theorem opened_after (opened : Instant) (minLength : Span) (events : List (Event n)) :
    ((start opened minLength : Meter n).after events).sampler.opened =
      Meter.opened opened ((start opened minLength : Meter n).log events) := by
  induction events using List.reverseRecOn with
  | nil => rfl
  | append_singleton events event ih =>
    rw [log_concat, opened_concat, ← ih, after_concat]
    cases event with
    | count event => rfl
    | update now =>
      simp only [respond, accepts, read_eq]
      cases h : ((start opened minLength : Meter n).after events).sampler.window? now with
      | none => simp [Sampler.update_of_window?_eq_none h, Record.opens?]
      | some window => simp [Sampler.update_of_window?_eq_some h, Record.opens?, Sampler.close]
    | reset now => rfl

end Meter

end Tachometer
