import Mathlib.Data.List.Induction
import Tachometer.Proofs.Measure.Meter
import Tachometer.Proofs.Relay.Targets
import Tachometer.Relay.Station

/-! # A station is a meter with filters behind it

What a station measures does not depend on its filters and outputs, and what these do depends on
the samples alone.

* `Station.meter`, `Station.samples` — the part of a station that measures, and what it measures.
* `Route.after` — a route whose filter was fed with a row of samples.
* `Station.kept` — a run without its rejected rounds.
* `Station.Refines`, `Station.refines_after` — after any run the station is what these say. -/

namespace Tachometer

/-! ## Routes and samples -/

/-- The signal of a fan in a sample; a fan that does not exist stands still. -/
def Meter.Sample.signal {n : Nat} (sample : Sample n) (source : Nat) : Binary32 :=
  (sample.frequencies[source]?.getD 0).convert

namespace Route

variable {n : Nat}

/-- Steps the filter of a route once, with the signal of its fan. -/
def step (route : Route) (sample : Meter.Sample n) : Route × Binary32 :=
  let (filter, result) := route.filter.apply (sample.signal route.source) sample.time
  ({ route with filter }, result)

/-- The route after its filter was stepped once for each of a row of samples, oldest first. -/
def after (route : Route) (samples : List (Meter.Sample n)) : Route :=
  samples.foldl (fun route sample => (route.step sample).1) route

/-- No samples change nothing: `route.after [] = route`. -/
@[simp] theorem after_nil (route : Route) : route.after ([] : List (Meter.Sample n)) = route := rfl

/-- Samples are taken in order:
`route.after (sample :: samples) = (route.step sample).1.after samples`. -/
@[simp] theorem after_cons (route : Route) (sample : Meter.Sample n)
    (samples : List (Meter.Sample n)) :
    route.after (sample :: samples) = (route.step sample).1.after samples := rfl

/-- A step does not change the fan: `(route.step sample).1.source = route.source`. -/
@[simp] theorem source_step (route : Route) (sample : Meter.Sample n) :
    (route.step sample).1.source = route.source := rfl

/-- Feeding a route from the sampler steps it with the sample. -/
theorem feed_eq_step (sampler : Sampler n) (now : Instant) (route : Route) :
    route.feed sampler now =
      ((route.step ⟨now, sampler.frequencies⟩).1,
        (route.step ⟨now, sampler.frequencies⟩).2.convert) := rfl

end Route

namespace Station

variable {n m : Nat}

/-! ## The part that measures -/

/-- The counters and the sampler of a station. -/
def meter (s : Station n m) : Meter n := ⟨s.counters, s.sampler⟩

/-- What an event means to the counters and the sampler, if it means something to them. -/
def measured? : Event n → Option (Meter.Event n)
  | .configure pins => some (.count (.configure pins))
  | .edge pin => some (.count (.edge pin))
  | .tick now => some (.update now)
  | .set _ _ => none

/-- What happens to the counters and the sampler in a run. -/
def measured (events : List (Event n)) : List (Meter.Event n) := events.filterMap measured?

/-- The samples of a run. -/
def samples (s : Station n m) (events : List (Event n)) : List (Meter.Sample n) :=
  s.meter.samples (measured events)

/-- A round of a station whose reading is accepted serves the outputs:
`s.tick now = s.serve (s.meter.read now) now`. -/
theorem tick_of_accepted {s : Station n m} {now : Instant}
    (h : (s.meter.read now).accepted = true) : s.tick now = s.serve (s.meter.read now) now := by
  unfold meter Meter.read at h ⊢
  simp only [tick, h, ↓reduceIte]

/-- A round of a station whose reading is rejected does nothing. -/
theorem tick_of_rejected {s : Station n m} {now : Instant}
    (h : (s.meter.read now).accepted = false) : s.tick now = { station := s } := by
  cases hw : s.sampler.window? now with
  | none => exact tick_of_window?_eq_none hw
  | some window =>
    rw [meter, Meter.read_eq, Sampler.update_of_window?_eq_some hw] at h
    exact absurd h (by simp)

/-- **Accepted rounds.** A round is accepted exactly when its reading is:
`(s.tick now).accepted = (s.meter.read now).accepted`. -/
theorem accepted_tick (s : Station n m) (now : Instant) :
    (s.tick now).accepted = (s.meter.read now).accepted := by
  cases h : (s.meter.read now).accepted with
  | true => rw [tick_of_accepted h, serve]
  | false => rw [tick_of_rejected h]

/-- Edges and rounds bind no pins. -/
theorem bound?_respond_of_only {s : Station n m} {event : Event n}
    (h : (∃ pin, event = .edge pin) ∨ ∃ now, event = .tick now) (pin : Nat) :
    (s.respond event).station.counters.bound? pin = s.counters.bound? pin := by
  rcases h with ⟨other, rfl⟩ | ⟨now, rfl⟩
  · exact Counters.bound?_congr (Counters.table_edge _ other) pin
  · rw [respond, counters_tick]

/-- An event does to the meter what it means to it. -/
theorem meter_respond (s : Station n m) (event : Event n) :
    (s.respond event).station.meter = s.meter.after (measured? event).toList := by
  cases event with
  | configure pins => rfl
  | edge pin => rfl
  | tick now =>
    show (s.tick now).station.meter = s.meter.respond (.update now)
    cases h : (s.meter.read now).accepted with
    | true => rw [tick_of_accepted h]; rfl
    | false =>
      rw [tick_of_rejected h, Meter.respond]
      cases hw : s.sampler.window? now with
      | none => rw [meter, Meter.read_eq, Sampler.update_of_window?_eq_none hw]
      | some window =>
        rw [meter, Meter.read_eq, Sampler.update_of_window?_eq_some hw] at h
        exact absurd h (by simp)
  | set channel wanted => rfl

/-- What a run means to the meter is what its first event does, and then what the rest does:
`measured (event :: events) = (measured? event).toList ++ measured events`. -/
theorem measured_cons (event : Event n) (events : List (Event n)) :
    measured (event :: events) = (measured? event).toList ++ measured events := by
  unfold measured
  cases h : measured? event with
  | none => rw [List.filterMap_cons_none h]; rfl
  | some event' => rw [List.filterMap_cons_some h]; rfl

/-- **The meter does not notice filters and outputs.**
`(s.after events).meter = s.meter.after (measured events)`. -/
theorem meter_after (s : Station n m) (events : List (Event n)) :
    (s.after events).meter = s.meter.after (measured events) := by
  induction events generalizing s with
  | nil => rfl
  | cons event events ih =>
    -- each event does to the meter what it means to it, one after the other
    rw [after_cons, ih, meter_respond, measured_cons]
    exact (List.foldl_append ..).symm

/-- The samples of a run are those of its first event and then those of the rest. -/
theorem samples_cons (s : Station n m) (event : Event n) (events : List (Event n)) :
    s.samples (event :: events) =
      s.meter.samples (measured? event).toList ++ (s.respond event).station.samples events := by
  rw [samples, measured_cons, Meter.samples_append, samples, meter_respond]

/-- Events come in order: `s.after (first ++ second) = (s.after first).after second`. -/
theorem after_append (s : Station n m) (first second : List (Event n)) :
    s.after (first ++ second) = (s.after first).after second :=
  List.foldl_append ..

/-- The samples of a longer run go on where those of the shorter one end. -/
theorem samples_append (s : Station n m) (first second : List (Event n)) :
    s.samples (first ++ second) = s.samples first ++ (s.after first).samples second := by
  rw [samples, measured, List.filterMap_append, Meter.samples_append, samples, samples, meter_after]
  rfl

/-! ## Filters and targets -/

/-- What comes of feeding all routes is what comes of feeding each. -/
theorem get_map_feed (routes : Vector Route m) (sampler : Sampler n) (now : Instant)
    (output : Fin m) :
    (routes.map (Route.feed sampler now)).get output = (routes.get output).feed sampler now :=
  Vector.getElem_map _ output.isLt

/-- Serving the outputs steps every filter once. -/
theorem routes_serve (s : Station n m) (reading : Sampler.Reading n) (now : Instant)
    (output : Fin m) :
    (s.serve reading now).station.routes.get output =
      ((s.routes.get output).step ⟨now, reading.sampler.frequencies⟩).1 := by
  refine (Vector.getElem_map Prod.fst output.isLt).trans ?_
  exact congrArg Prod.fst (get_map_feed s.routes reading.sampler now output)

/-- An event steps every filter once if it brings a sample, and not at all otherwise. -/
theorem routes_respond (s : Station n m) (event : Event n) (output : Fin m) :
    (s.respond event).station.routes.get output =
      (s.routes.get output).after (s.meter.samples (measured? event).toList) := by
  cases event with
  | configure pins => rfl
  | edge pin => rfl
  | tick now =>
    show (s.tick now).station.routes.get output =
      (s.routes.get output).after ((s.meter.sample? (.update now)).toList ++ [])
    cases h : (s.meter.read now).accepted with
    | true =>
      rw [tick_of_accepted h, routes_serve]
      simp [Meter.sample?, h]
    | false => simp [tick_of_rejected h, Meter.sample?, h]
  | set channel wanted => rfl

/-- **Filters of a run.** Every filter was stepped once for each sample and at no other time. -/
theorem routes_after (s : Station n m) (events : List (Event n)) (output : Fin m) :
    (s.after events).routes.get output = (s.routes.get output).after (s.samples events) := by
  induction events generalizing s with
  | nil => rfl
  | cons event events ih =>
    -- first the samples of the event, then those of the rest: together they are one row
    rw [after_cons, ih, routes_respond, samples_cons]
    exact (List.foldl_append ..).symm

/-- What is wanted for an output in a round is the frequency of its own route:
`Targets.wantedFor (wanted fed) output = [(fed.get output).2]`. -/
theorem wantedFor_wanted (fed : Vector (Route × Binary64) m) (output : Fin m) :
    Targets.wantedFor (wanted fed) output = [(fed.get output).2] := by
  have h := Targets.wantedFor_zipIdx Prod.snd fed.toList 0 output
  rw [if_pos (Nat.zero_le _), Nat.sub_zero] at h
  rw [wanted]
  refine h.trans ?_
  simp [Vector.get]

/-- The last frequency wanted in a round is that of the output's own route. -/
theorem lastWanted?_wanted (fed : Vector (Route × Binary64) m) (output : Fin m) :
    Targets.lastWanted? (wanted fed) output = some (fed.get output).2 := by
  rw [← Targets.getLast?_wantedFor, wantedFor_wanted, List.getLast?_singleton]

/-- Serving the outputs sets every target to the usable result of one step of its filter. -/
theorem targets_serve {s : Station n m} (ht : s.targets.Unsigned) (reading : Sampler.Reading n)
    (now : Instant) (output : Fin m) :
    (s.serve reading now).station.targets.frequencies.get output =
      usable ((s.routes.get output).step ⟨now, reading.sampler.frequencies⟩).2.convert := by
  simp only [serve]
  rw [Targets.frequencies_setAll ht, lastWanted?_wanted, get_map_feed, Route.feed_eq_step]
  rfl

/-- An accepted round sets every target to the usable result of one step of its filter. -/
theorem targets_tick_of_accepted {s : Station n m} (ht : s.targets.Unsigned) {now : Instant}
    (h : (s.tick now).accepted = true) (output : Fin m) :
    (s.tick now).station.targets.frequencies.get output =
      usable ((s.routes.get output).step
        ⟨now, (s.meter.read now).sampler.frequencies⟩).2.convert := by
  rw [accepted_tick] at h
  rw [tick_of_accepted h, targets_serve ht]

/-- No event gives a target a minus: `(s.respond event).station.targets.Unsigned`. -/
theorem unsigned_respond {s : Station n m} (ht : s.targets.Unsigned) (event : Event n) :
    (s.respond event).station.targets.Unsigned := by
  cases event with
  | configure pins => exact ht
  | edge pin => exact ht
  | tick now =>
    show (s.tick now).station.targets.Unsigned
    cases h : (s.meter.read now).accepted with
    | true => rw [tick_of_accepted h]; exact ht.setAll _
    | false => rw [tick_of_rejected h]; exact ht
  | set channel wanted => exact ht.set channel wanted

/-- No run gives a target a minus: `(s.after events).targets.Unsigned`. -/
theorem unsigned_after {s : Station n m} (ht : s.targets.Unsigned) (events : List (Event n)) :
    (s.after events).targets.Unsigned := by
  induction events generalizing s with
  | nil => exact ht
  | cons event events ih => exact ih (unsigned_respond ht event)

/-! ## Runs without rejected rounds -/

/-- Whether an event is a round that is rejected. -/
def rejects (s : Station n m) : Event n → Bool
  | .tick now => !(s.tick now).accepted
  | _ => false

/-- A run without its rejected rounds. -/
def kept (s : Station n m) : List (Event n) → List (Event n)
  | [] => []
  | event :: events =>
    if s.rejects event then s.kept events
    else event :: (s.respond event).station.kept events

/-- A rejected round leaves no trace. -/
theorem respond_of_rejects {s : Station n m} {event : Event n} (h : s.rejects event = true) :
    s.respond event = { station := s } := by
  cases event with
  | tick now =>
    rw [rejects, accepted_tick, Bool.not_eq_true'] at h
    exact tick_of_rejected h
  | configure pins | edge pin | set channel wanted => exact absurd h (by simp [rejects])

/-- **Rejected rounds.** Without them a run leads to the same station and sends the same
commands. -/
theorem after_kept (s : Station n m) (events : List (Event n)) :
    s.after (s.kept events) = s.after events ∧ s.commands (s.kept events) = s.commands events := by
  induction events generalizing s with
  | nil => exact ⟨rfl, rfl⟩
  | cons event events ih =>
    rw [kept]
    by_cases h : s.rejects event = true
    · -- the rejected round is left out, and nothing came of it
      rw [if_pos h, after_cons, commands_cons, respond_of_rejects h]
      exact ih s
    · obtain ⟨hafter, hcommands⟩ := ih (s.respond event).station
      rw [if_neg h, after_cons, after_cons, commands_cons, commands_cons, hafter, hcommands]
      exact ⟨rfl, rfl⟩

/-! ## The station after a run -/

/-- How a station stands to a run that it has been through. -/
structure Refines (s : Station n m) (events : List (Event n)) : Prop where
  /-- A round is accepted exactly when the meter accepts its reading. -/
  accepted_tick : ∀ now, ((s.after events).tick now).accepted =
    ((s.meter.after (measured events)).read now).accepted
  /-- A rejected round changes nothing and sends nothing. -/
  tick_of_rejected : ∀ now, ((s.after events).tick now).accepted = false →
    ((s.after events).tick now).station = s.after events ∧
      ((s.after events).tick now).commands = []
  /-- Without its rejected rounds the run leads to the same station. -/
  after_kept : s.after (s.kept events) = s.after events
  /-- Without its rejected rounds the run sends the same commands. -/
  commands_kept : s.commands (s.kept events) = s.commands events
  /-- Every filter was stepped once for each sample of the run and at no other time. -/
  routes_eq : ∀ output : Fin m,
    (s.after events).routes.get output = (s.routes.get output).after (s.samples events)
  /-- An accepted round sets every target to the result of one more step. -/
  targets_tick : ∀ now, ((s.after events).tick now).accepted = true → ∀ output : Fin m,
    ((s.after events).tick now).station.targets.frequencies.get output =
      usable (((s.routes.get output).after (s.samples events)).step
        ⟨now, ((s.meter.after (measured events)).read now).sampler.frequencies⟩).2.convert
  /-- So the target is that result if it is a positive finite number, and otherwise zero. -/
  sanitizes_tick : ∀ now, ((s.after events).tick now).accepted = true → ∀ output : Fin m,
    Sanitizes (((s.routes.get output).after (s.samples events)).step
        ⟨now, ((s.meter.after (measured events)).read now).sampler.frequencies⟩).2.convert
      (((s.after events).tick now).station.targets.frequencies.get output)

/-- **Refinement.** Whatever counters, sampler, routes and reachable targets a station starts
with, and whatever happens to it, it is a meter whose samples step every filter once and set every
target. -/
theorem refines_after (counters : Counters n) (sampler : Sampler n) (routes : Vector Route m)
    (changes : List (Nat × Binary64)) (events : List (Event n)) :
    Refines ⟨counters, sampler, routes, (Targets.off.setAll changes).targets⟩ events := by
  generalize hs : (⟨counters, sampler, routes, (Targets.off.setAll changes).targets⟩ :
    Station n m) = s
  have ht : s.targets.Unsigned := by
    rw [← hs]
    exact Targets.unsigned_off.setAll changes
  constructor
  case accepted_tick =>
    intro now
    rw [Station.accepted_tick, meter_after]
  case tick_of_rejected =>
    intro now h
    rw [Station.accepted_tick] at h
    rw [Station.tick_of_rejected h]
    exact ⟨rfl, rfl⟩
  case after_kept => exact (s.after_kept events).1
  case commands_kept => exact (s.after_kept events).2
  case routes_eq => exact s.routes_after events
  case targets_tick =>
    intro now h output
    rw [targets_tick_of_accepted (unsigned_after ht events) h, routes_after, meter_after]
  case sanitizes_tick =>
    intro now h output
    rw [sanitizes_iff, targets_tick_of_accepted (unsigned_after ht events) h, routes_after,
      meter_after]

/-- A station with one fan, on pin four, that is repeated on one output as it is. -/
def oneFan : Station 1 1 :=
  ⟨(Counters.empty.configure (.replicate 1 4)).counters, .start ⟨0⟩ Sampler.usualLength,
    .replicate 1 ⟨0, .passThrough⟩, (Targets.off.setAll []).targets⟩

/-- Ten pulses of the fan, and a round after half a second, which comes too early. -/
def tenPulses : List (Event 1) := List.replicate 10 (.edge 4) ++ [.tick ⟨50000000⟩]

/-- The round after one second is accepted, no sample was taken before it, and it sets the output
to ten hertz. -/
theorem refines_after_tenPulses :
    oneFan.Refines tenPulses ∧
      ((oneFan.after tenPulses).tick ⟨50000000⟩).accepted = false ∧
      ((oneFan.after tenPulses).tick ⟨100000000⟩).accepted = true ∧
      oneFan.samples tenPulses = [] ∧
      oneFan.kept tenPulses = List.replicate 10 (.edge 4) ∧
      ((oneFan.after tenPulses).tick ⟨100000000⟩).station.targets.frequencies.get 0 =
        .ofNat 10 := by
  have h : oneFan.Refines tenPulses := refines_after _ _ _ _ _
  have haccepted : ((oneFan.after tenPulses).tick ⟨100000000⟩).accepted = true := by
    decide +kernel
  have hsamples : oneFan.samples tenPulses = [] := by
    decide +kernel
  refine ⟨h, by decide +kernel, haccepted, hsamples, by decide +kernel, ?_⟩
  rw [h.targets_tick _ haccepted 0, hsamples]
  decide +kernel

end Station

end Tachometer
