import Mathlib.Data.List.Forall2
import Tachometer.Proofs.Relay.History
import Tachometer.Proofs.Relay.Refinement

/-! # Fans do not disturb one another

What is seen of a fan in a run — which rounds are accepted, and what becomes of the outputs that
follow it — depends on the edges on its own pin only, and of these only on their number from one
round to the next. So a run may be replaced by its replay, in which nothing else happens.

* `Station.rounds` — what came of the rounds of a run.
* `Station.roundsOn`, `Station.replay` — the rounds of a run with the edges on one pin, and a run
  that consists of these.
* `Station.Agree` — two stations that a fan cannot tell apart.
* `Station.SeenAlike`, `Station.seenAlike_of_roundsOn_eq` — what two runs have in common for a fan
  when they have the same rounds with as many edges on its pin. -/

namespace Tachometer

/-- A route is fed the frequency of its own fan: `route.feed a now = route.feed b now`. -/
theorem Route.feed_congr {n : Nat} {a b : Sampler n} {route : Route}
    (h : a.frequency? route.source = b.frequency? route.source) (now : Instant) :
    route.feed a now = route.feed b now := by
  simp only [feed, input, h]

namespace Station

variable {n m : Nat}

/-! ## Rounds -/

/-- What came of the rounds of a run, in order. -/
def rounds (s : Station n m) : List (Event n) → List (Response n m)
  | [] => []
  | event :: events =>
    let response := s.respond event
    match event with
    | .tick _ => response :: response.station.rounds events
    | _ => response.station.rounds events

/-- Nothing happens in a run but edges and rounds. -/
def EdgesAndRounds (events : List (Event n)) : Prop :=
  ∀ event ∈ events, (∃ pin, event = .edge pin) ∨ ∃ now, event = .tick now

/-- The rounds of a run, each with its time and the number of edges on a pin since the round
before it. Before the first round there are some edges already. -/
def roundsOn (pin pending : Nat) : List (Event n) → List (Nat × Instant)
  | [] => []
  | .edge other :: events => roundsOn pin (if other = pin then pending + 1 else pending) events
  | .tick now :: events => (pending, now) :: roundsOn pin 0 events
  | .configure _ :: events | .set _ _ :: events => roundsOn pin pending events

/-- A run of rounds with edges on one pin before each. -/
def replay (pin : Nat) (rounds : List (Nat × Instant)) : List (Event n) :=
  rounds.flatMap fun (count, now) => List.replicate count (.edge pin) ++ [.tick now]

/-- No events bring no rounds: `s.rounds [] = []`. -/
@[simp] theorem rounds_nil (s : Station n m) : s.rounds [] = [] := rfl

/-- A round is the first of those that follow:
`s.rounds (.tick now :: events) = s.tick now :: (s.tick now).station.rounds events`. -/
@[simp] theorem rounds_cons_tick (s : Station n m) (now : Instant) (events : List (Event n)) :
    s.rounds (.tick now :: events) = s.tick now :: (s.tick now).station.rounds events := rfl

/-- An edge is no round, but the rounds after it start from it:
`s.rounds (.edge pin :: events) = (s.respond (.edge pin)).station.rounds events`. -/
@[simp] theorem rounds_cons_edge (s : Station n m) (pin : Nat) (events : List (Event n)) :
    s.rounds (.edge pin :: events) = (s.respond (.edge pin)).station.rounds events := rfl

/-- What follows the first event of edges and rounds is edges and rounds:
`EdgesAndRounds events`. -/
theorem EdgesAndRounds.of_cons {event : Event n} {events : List (Event n)}
    (h : EdgesAndRounds (event :: events)) : EdgesAndRounds events :=
  fun event hmem => h event (List.mem_cons_of_mem _ hmem)

/-- Edges bring no round. -/
theorem rounds_replicate_append (s : Station n m) (pin count : Nat) (events : List (Event n)) :
    s.rounds (List.replicate count (.edge pin) ++ events) =
      (s.after (List.replicate count (.edge pin))).rounds events := by
  induction count generalizing s with
  | zero => rfl
  | succ count ih => exact ih _

/-- What an output is sent in a run of edges and rounds, it is sent in its rounds. -/
theorem sentTo_commands (s : Station n m) {events : List (Event n)} (h : EdgesAndRounds events)
    (output : Nat) :
    sentTo output (s.commands events) =
      ((s.rounds events).map fun response => sentTo output response.commands).flatten := by
  induction events generalizing s with
  | nil => rfl
  | cons event events ih =>
    rw [commands_cons, sentTo_append, ih _ h.of_cons]
    obtain ⟨pin, rfl⟩ | ⟨now, rfl⟩ := h event List.mem_cons_self
    · rfl
    · rfl

/-! ## Stations that a fan cannot tell apart -/

/-- Two stations that a fan and the outputs in question, all of which follow it, cannot tell
apart. -/
structure Agree (fan : Fin n) (outputs : Fin m → Prop) (s t : Station n m) : Prop where
  /-- The pins are bound alike. -/
  table_eq : s.counters.table = t.counters.table
  /-- As many edges were counted for the fan. -/
  counts_eq : s.counters.counts.get fan = t.counters.counts.get fan
  /-- The open window of the fan started with the same count. -/
  baseline_eq : s.sampler.baseline.get fan = t.sampler.baseline.get fan
  /-- The open window started at the same time. -/
  opened_eq : s.sampler.opened = t.sampler.opened
  /-- A window has the same least length. -/
  minLength_eq : s.sampler.minLength = t.sampler.minLength
  /-- The outputs follow the fan. -/
  source_eq : ∀ output, outputs output → (s.routes.get output).source = fan.val
  /-- The filters of the outputs are in the same state. -/
  route_eq : ∀ output, outputs output → s.routes.get output = t.routes.get output
  /-- The outputs have the same targets. -/
  target_eq : ∀ output, outputs output →
    s.targets.frequencies.get output = t.targets.frequencies.get output
  /-- All targets are usable. -/
  usable : s.targets.Usable ∧ t.targets.Usable

/-- Two rounds that the outputs in question cannot tell apart. -/
structure Alike (outputs : Fin m → Prop) (a b : Response n m) : Prop where
  /-- Both are accepted, or none. -/
  accepted_eq : a.accepted = b.accepted
  /-- Afterwards the outputs have the same targets. -/
  target_eq : ∀ output, outputs output →
    a.station.targets.frequencies.get output = b.station.targets.frequencies.get output
  /-- The outputs are sent the same. -/
  sentTo_eq : ∀ output : Fin m, outputs output →
    sentTo output a.commands = sentTo output b.commands

namespace Agree

variable {fan : Fin n} {outputs : Fin m → Prop} {s t : Station n m}

/-- A station agrees with itself. -/
theorem refl (s : Station n m) (ht : s.targets.Usable)
    (h : ∀ output, outputs output → (s.routes.get output).source = fan.val) :
    Agree fan outputs s s :=
  ⟨rfl, rfl, rfl, rfl, rfl, h, fun _ _ => rfl, fun _ _ => rfl, ht, ht⟩

/-- The same edge is counted for the fan in both stations, or in none. -/
theorem edge (h : Agree fan outputs s t) (pin : Nat) :
    Agree fan outputs (s.respond (.edge pin)).station (t.respond (.edge pin)).station :=
  { h with
    table_eq := (Counters.table_edge ..).trans (h.table_eq.trans (Counters.table_edge ..).symm)
    counts_eq := by
      show (s.counters.edge pin).counts.get fan = (t.counters.edge pin).counts.get fan
      rw [Counters.counts_edge, Counters.counts_edge, Counters.bound?_congr h.table_eq,
        h.counts_eq] }

/-- An edge that is not one of the fan is not noticed. -/
theorem edge_left (h : Agree fan outputs s t) {pin : Nat}
    (hpin : s.counters.bound? pin ≠ some fan.val) :
    Agree fan outputs (s.respond (.edge pin)).station t :=
  { h with
    table_eq := (Counters.table_edge ..).trans h.table_eq
    counts_eq := by
      show (s.counters.edge pin).counts.get fan = t.counters.counts.get fan
      rw [Counters.counts_edge, if_neg hpin, UInt32.add_zero, h.counts_eq] }

/-- A round closes the same window in both stations, or in none:
`s.sampler.window? now = t.sampler.window? now`. -/
theorem window?_eq (h : Agree fan outputs s t) (now : Instant) :
    s.sampler.window? now = t.sampler.window? now := by
  rw [Sampler.window?, Sampler.window?, h.opened_eq, h.minLength_eq]

/-- Both stations measure the same frequency of the fan. -/
theorem frequency?_close (h : Agree fan outputs s t) (window : Span) (now : Instant) :
    (s.sampler.close s.counters.counts window now).frequency? fan =
      (t.sampler.close t.counters.counts window now).frequency? fan := by
  have hcounts : s.counters.counts[fan.val] = t.counters.counts[fan.val] := h.counts_eq
  have hbaseline : s.sampler.baseline[fan.val] = t.sampler.baseline[fan.val] := h.baseline_eq
  simp only [Sampler.frequency?, Sampler.close, Vector.getElem?_eq_getElem fan.isLt,
    Vector.getElem_zipWith, hcounts, hbaseline]

/-- The filter of an output is fed the same in both stations. -/
theorem feed_eq (h : Agree fan outputs s t) {output : Fin m} (hout : outputs output)
    (window : Span) (now : Instant) :
    (s.routes.get output).feed (s.sampler.close s.counters.counts window now) now =
      (t.routes.get output).feed (t.sampler.close t.counters.counts window now) now := by
  rw [← h.route_eq output hout]
  refine Route.feed_congr ?_ now
  rw [h.source_eq output hout]
  exact h.frequency?_close window now

/-- Serving the outputs after the same window, the fan cannot tell the rounds apart, and neither
the stations afterwards. -/
theorem serve (h : Agree fan outputs s t) (window : Span) (now : Instant)
    (notices notices' : List Notice) :
    let first := s.serve ⟨s.sampler.close s.counters.counts window now, true, notices⟩ now
    let second := t.serve ⟨t.sampler.close t.counters.counts window now, true, notices'⟩ now
    Alike outputs first second ∧ Agree fan outputs first.station second.station := by
  intro first second
  -- what is wanted for an output is what its own filter gives, and that is the same
  have hwanted (output : Fin m) (hout : outputs output) :
      Targets.wantedFor (wanted (s.routes.map
          (Route.feed (s.sampler.close s.counters.counts window now) now))) output =
        Targets.wantedFor (wanted (t.routes.map
          (Route.feed (t.sampler.close t.counters.counts window now) now))) output := by
    rw [wantedFor_wanted, wantedFor_wanted, get_map_feed, get_map_feed, h.feed_eq hout]
  have hchanges (output : Fin m) (hout : outputs output) :=
    Targets.setAll_congr h.usable.1 h.usable.2 (h.target_eq output hout) (hwanted output hout)
  refine ⟨⟨rfl, fun output hout => (hchanges output hout).2,
    fun output hout => (hchanges output hout).1⟩, ?_⟩
  constructor
  case table_eq => exact h.table_eq
  case counts_eq => exact h.counts_eq
  case baseline_eq => exact h.counts_eq
  case opened_eq => rfl
  case minLength_eq => exact h.minLength_eq
  case source_eq =>
    intro output hout
    rw [routes_serve, Route.source_step]
    exact h.source_eq output hout
  case route_eq =>
    intro output hout
    rw [routes_serve, routes_serve]
    have hfed := h.feed_eq hout window now
    rw [Route.feed_eq_step, Route.feed_eq_step] at hfed
    exact (Prod.mk.inj hfed).1
  case target_eq => exact fun output hout => (hchanges output hout).2
  case usable => exact ⟨h.usable.1.setAll _, h.usable.2.setAll _⟩

/-- **One round.** The fan cannot tell the rounds of the stations apart, and neither the stations
afterwards. -/
theorem tick (h : Agree fan outputs s t) (now : Instant) :
    Alike outputs (s.tick now) (t.tick now) ∧
      Agree fan outputs (s.tick now).station (t.tick now).station := by
  have hwindow := h.window?_eq now
  cases hs : s.sampler.window? now with
  | none =>
    rw [tick_of_window?_eq_none hs, tick_of_window?_eq_none (hwindow.symm.trans hs)]
    exact ⟨⟨rfl, h.target_eq, fun _ _ => rfl⟩, h⟩
  | some window =>
    have ht := hwindow.symm.trans hs
    rw [tick_of_window?_eq_some hs, tick_of_window?_eq_some ht,
      Sampler.update_of_window?_eq_some hs, Sampler.update_of_window?_eq_some ht]
    exact h.serve window now _ _

end Agree

/-! ## Runs and their replays -/

/-- The fan cannot tell a run from its replay, in which it is the only one. -/
theorem forall₂_alike_replay {fan : Fin n} {outputs : Fin m → Prop} {pin : Nat}
    {events : List (Event n)} (hevents : EdgesAndRounds events) {s t : Station n m}
    (hpin : ∀ other, s.counters.bound? other = some fan.val ↔ other = pin) (pending : Nat)
    (h : Agree fan outputs s (t.after (List.replicate pending (.edge pin)))) :
    List.Forall₂ (Alike outputs) (s.rounds events)
      (t.rounds (replay pin (roundsOn pin pending events))) := by
  induction events generalizing s t pending with
  | nil => exact .nil
  | cons event events ih =>
    have hpin' (other : Nat) :
        (s.respond event).station.counters.bound? other = some fan.val ↔ other = pin := by
      rw [bound?_respond_of_only (hevents event List.mem_cons_self)]
      exact hpin other
    obtain ⟨other, rfl⟩ | ⟨now, rfl⟩ := hevents event List.mem_cons_self
    · rw [rounds_cons_edge, roundsOn]
      by_cases heq : other = pin
      · -- the replay has this edge as well, before its next round
        subst heq
        rw [if_pos rfl]
        refine ih hevents.of_cons hpin' _ ?_
        rw [List.replicate_succ', after_append]
        exact h.edge other
      · -- the replay does without this edge, and the stations still agree
        rw [if_neg heq]
        exact ih hevents.of_cons hpin' _ (h.edge_left fun hbound => heq ((hpin other).mp hbound))
    · obtain ⟨halike, hagree⟩ := h.tick now
      rw [rounds_cons_tick, roundsOn, replay, List.flatMap_cons, List.append_assoc,
        rounds_replicate_append]
      exact .cons halike (ih hevents.of_cons hpin' 0 hagree)

/-- What the outputs in question see of rounds that they cannot tell apart is the same:
`first.map view = second.map view`. -/
theorem map_eq_of_forall₂_alike {α : Type} {outputs : Fin m → Prop} {view : Response n m → α}
    (hview : ∀ a b, Alike outputs a b → view a = view b) {first second : List (Response n m)}
    (h : List.Forall₂ (Alike outputs) first second) : first.map view = second.map view := by
  induction h with
  | nil => rfl
  | cons hround _ ih => rw [List.map_cons, List.map_cons, hview _ _ hround, ih]

/-! ## What is seen of a fan -/

/-- What two runs of a station have in common for a fan. -/
structure SeenAlike (s : Station n m) (fan : Fin n) (first second : List (Event n)) : Prop where
  /-- The same rounds are accepted. -/
  accepted_eq : (s.rounds first).map (·.accepted) = (s.rounds second).map (·.accepted)
  /-- The outputs that follow the fan have the same targets after each round. -/
  targets_eq : ∀ output : Fin m, (s.routes.get output).source = fan.val →
    (s.rounds first).map (·.station.targets.frequencies.get output) =
      (s.rounds second).map (·.station.targets.frequencies.get output)
  /-- They are sent the same in each round. -/
  sent_eq : ∀ output : Fin m, (s.routes.get output).source = fan.val →
    (s.rounds first).map (sentTo output ·.commands) =
      (s.rounds second).map (sentTo output ·.commands)
  /-- They are sent the same in the whole run. -/
  commands_eq : ∀ output : Fin m, (s.routes.get output).source = fan.val →
    sentTo output (s.commands first) = sentTo output (s.commands second)

/-- **Fans do not disturb one another.** Whatever was configured before, whatever the routes, the
reachable targets and the sampler are: when two runs of edges and rounds have the same rounds with
as many edges on the pin of a fan before each, the fan and the outputs that follow it are seen
alike in both. -/
theorem seenAlike_of_roundsOn_eq {history : List (Counters.Event n)} {pins : Vector Nat n}
    (hpins : Counters.configured? history = some pins) (sampler : Sampler n)
    (routes : Vector Route m) (changes : List (Nat × Binary64)) (fan : Fin n)
    {first second : List (Event n)} (hfirst : EdgesAndRounds first)
    (hsecond : EdgesAndRounds second)
    (h : roundsOn (pins.get fan) 0 first = roundsOn (pins.get fan) 0 second) :
    SeenAlike ⟨Counters.empty.after history, sampler, routes,
      (Targets.off.setAll changes).targets⟩ fan first second := by
  generalize hs : (⟨Counters.empty.after history, sampler, routes,
    (Targets.off.setAll changes).targets⟩ : Station n m) = s
  have hpin (other : Nat) : s.counters.bound? other = some fan.val ↔ other = pins.get fan := by
    rw [← hs, Counters.bound?_after_iff_any, hpins]
    simp [eq_comm]
  have ht : s.targets.Usable := by
    rw [← hs]
    exact Targets.usable_off.setAll changes
  let follows : Fin m → Prop := fun output => (s.routes.get output).source = fan.val
  have hreplay {run : List (Event n)} (hrun : EdgesAndRounds run) :
      List.Forall₂ (Alike follows) (s.rounds run)
        (s.rounds (replay (pins.get fan) (roundsOn (pins.get fan) 0 run))) :=
    forall₂_alike_replay hrun hpin 0 (.refl s ht fun _ hout => hout)
  -- both runs have the same replay, in which the fan is the only one
  have hview {α : Type} (view : Response n m → α)
      (heq : ∀ a b, Alike follows a b → view a = view b) :
      (s.rounds first).map view = (s.rounds second).map view := by
    rw [map_eq_of_forall₂_alike heq (hreplay hfirst), h,
      map_eq_of_forall₂_alike heq (hreplay hsecond)]
  have hsent (output : Fin m) (hout : follows output) :=
    hview (sentTo output ·.commands) fun _ _ hround => hround.sentTo_eq output hout
  constructor
  case accepted_eq => exact hview _ fun _ _ hround => hround.accepted_eq
  case targets_eq =>
    intro output hout
    exact hview _ fun _ _ hround => hround.target_eq output hout
  case sent_eq => exact hsent
  case commands_eq =>
    intro output hout
    rw [sentTo_commands s hfirst, sentTo_commands s hsecond, hsent output hout]

/-- Two edges and one more on the pin of the first fan, among edges on other pins. -/
def crowdedRun : List (Event 2) :=
  [.edge 5, .edge 4, .edge 40, .edge 4, .edge 5, .tick ⟨100000000⟩, .edge 7, .edge 4,
    .tick ⟨200000000⟩]

/-- The same edges on the pin of the first fan, and no others. -/
def quietRun : List (Event 2) :=
  [.edge 4, .edge 4, .tick ⟨100000000⟩, .edge 4, .tick ⟨200000000⟩]

/-- The edges on other pins do not show on the output of the first fan, but on that of the
other. -/
theorem seenAlike_crowdedRun_quietRun :
    let s : Station 2 2 := ⟨Counters.empty.after [.configure #v[4, 5]],
      .start ⟨0⟩ Sampler.usualLength, #v[⟨0, .passThrough⟩, ⟨1, .passThrough⟩],
      (Targets.off.setAll []).targets⟩
    SeenAlike s 0 crowdedRun quietRun ∧
      (s.rounds crowdedRun).map (·.accepted) = [true, true] ∧
      sentTo 0 (s.commands crowdedRun) = [.ofNat 2, .ofNat 1] ∧
      sentTo 1 (s.commands crowdedRun) ≠ sentTo 1 (s.commands quietRun) := by
  have hpins : Counters.configured? [.configure #v[4, 5]] = some #v[4, 5] := by
    decide +kernel
  refine ⟨seenAlike_of_roundsOn_eq hpins _ _ [] 0 ?_ ?_ (by decide +kernel), by decide +kernel,
    by decide +kernel, by decide +kernel⟩
  · simp [EdgesAndRounds, crowdedRun]
  · simp [EdgesAndRounds, quietRun]

end Station

end Tachometer
