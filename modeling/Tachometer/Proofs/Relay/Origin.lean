import Mathlib.Data.List.Forall2
import Tachometer.Proofs.Relay.Envelope

/-! # The origin of the clock

Only spans of time count, not the readings of the clock that they lie between. A run whose clock
is ahead by a fixed offset goes as the run itself. The one reading that does not move with the
clock is the one since which a fresh peak hold holds zero, and it is forgotten at the first call:
no signal is below zero, so the first one is taken as a peak.

* `Instant.later`, `PeakHold.later`, `Sampler.later` — the same under a clock that is ahead.
* `PeakHold.step_later`, `PeakHold.step_start` — one call, and the first one.
* `Station.responses` — what comes of each event of a run.
* `Station.Behind`, `Station.Behind.respond` — two stations that differ in their clocks only.
* `Station.responses_later` — a run goes the same whatever the origin of its clock is. -/

namespace Tachometer

/-! ## Readings and spans -/

namespace Instant

variable {offset : Span} {now earlier : Instant}

/-- What a clock that is ahead reads in place of a reading. -/
def later (t : Instant) (offset : Span) : Instant := ⟨t.ticks + offset.ticks⟩

/-- A clock that is ahead can count as far as a reading. -/
def HasRoom (offset : Span) (t : Instant) : Prop :=
  t.ticks.toNat + offset.ticks.toNat < 2 ^ 64

/-- Where there is room a later time has the offset more ticks:
`(now.later offset).ticks.toNat = now.ticks.toNat + offset.ticks.toNat`. -/
theorem toNat_later (h : now.HasRoom offset) :
    (now.later offset).ticks.toNat = now.ticks.toNat + offset.ticks.toNat :=
  (UInt64.toNat_add _ _).trans (Nat.mod_eq_of_lt h)

/-- **Spans stay.** The span between two readings is that between the readings of a clock that is
ahead. -/
theorem since?_later (hnow : now.HasRoom offset) (hearlier : earlier.HasRoom offset) :
    (now.later offset).since? (earlier.later offset) = now.since? earlier := by
  refine Option.ext fun span => ?_
  rw [since?_eq_some_iff, since?_eq_some_iff, toNat_later hnow, toNat_later hearlier]
  omega

/-- The time between two readings is the same for later ones:
`(now.later offset).since (earlier.later offset) = now.since earlier`. -/
theorem since_later (hnow : now.HasRoom offset) (hearlier : earlier.HasRoom offset) :
    (now.later offset).since (earlier.later offset) = now.since earlier := by
  rw [since, since, since?_later hnow hearlier]

end Instant

/-! ## Peak holds and filters -/

namespace PeakHold

variable {offset : Span} {p : PeakHold} {input : Binary32} {now : Instant}

/-- A phase under a clock that is ahead. -/
def Phase.later (offset : Span) : Phase → Phase
  | .holding since => .holding (since.later offset)
  | .dropping => .dropping

/-- A peak hold under a clock that is ahead. -/
def later (p : PeakHold) (offset : Span) : PeakHold :=
  { p with phase := p.phase.later offset, lastCall := p.lastCall.later offset }

/-- A clock that is ahead can count as far as the readings that a peak hold keeps. -/
structure HasRoom (offset : Span) (p : PeakHold) : Prop where
  /-- As far as the last call. -/
  lastCall : p.lastCall.HasRoom offset
  /-- As far as the peak. -/
  since : ∀ since, p.phase = .holding since → since.HasRoom offset

/-- A later peak hold drops for the same time:
`(p.later offset).dropTime? (now.later offset) = p.dropTime? now`. -/
theorem dropTime?_later (hp : p.HasRoom offset) (hnow : now.HasRoom offset) :
    (p.later offset).dropTime? (now.later offset) = p.dropTime? now := by
  have hcall : (now.later offset).since (p.lastCall.later offset) = now.since p.lastCall :=
    Instant.since_later hnow hp.lastCall
  unfold dropTime? later
  cases hphase : p.phase with
  | dropping => simp only [Phase.later, hcall]
  | holding since =>
    simp only [Phase.later, hcall, Instant.since_later hnow (hp.since since hphase)]

/-- **One call.** A call at a later reading gives what the call gives. -/
theorem step_later (hp : p.HasRoom offset) (hnow : now.HasRoom offset) (input : Binary32) :
    (p.later offset).step input (now.later offset) = (p.step input now).later offset := by
  by_cases h : p.peak ≤ input
  · rw [step_of_peak_le h, step_of_peak_le (p := p.later offset) h]
    rfl
  · have htime := dropTime?_later hp hnow
    cases ht : p.dropTime? now with
    | none =>
      rw [step_of_dropTime?_eq_none h ht,
        step_of_dropTime?_eq_none (p := p.later offset) h (htime.trans ht)]
      rfl
    | some time =>
      rw [step_of_dropTime?_eq_some h ht,
        step_of_dropTime?_eq_some (p := p.later offset) h (htime.trans ht)]
      rfl

/-- **The first call.** A signal that is not negative is taken as a peak, and then nothing is left
of the time at which the peak hold was made. -/
theorem step_start (h : 0 ≤ input) (settings : Settings) (created : Instant) :
    (start settings created).step input now = ⟨settings, input, .holding now, now⟩ :=
  step_of_peak_le h now

/-- A peak hold keeps no reading later than its last call. -/
theorem HasRoom.step (hp : p.HasRoom offset) (hnow : now.HasRoom offset) (input : Binary32) :
    (p.step input now).HasRoom offset := by
  refine ⟨by rwa [lastCall_step], ?_⟩
  intro since hsince
  by_cases h : p.peak ≤ input
  · rw [step_of_peak_le h] at hsince
    obtain rfl := Phase.holding.inj hsince
    exact hnow
  · cases ht : p.dropTime? now with
    | none =>
      rw [step_of_dropTime?_eq_none h ht] at hsince
      exact hp.since since hsince
    | some time =>
      rw [step_of_dropTime?_eq_some h ht] at hsince
      exact absurd hsince (by simp)

end PeakHold

/-- The second filter is the first one under a clock that is ahead. Peak holds that have had no
input yet need not agree on when they were made. -/
inductive Filter.Behind (offset : Span) : Filter → Filter → Prop where
  /-- Without a state there is no difference. -/
  | passThrough : Behind offset .passThrough .passThrough
  /-- Both peak holds are fresh. -/
  | fresh (settings : PeakHold.Settings) (created created' : Instant) :
      Behind offset (.peakHold (.start settings created)) (.peakHold (.start settings created'))
  /-- All readings that the peak holds keep differ by the offset. -/
  | fed {p : PeakHold} (h : p.HasRoom offset) :
      Behind offset (.peakHold p) (.peakHold (p.later offset))

/-- Fed with a signal that is not negative, both filters give the same. -/
theorem Filter.Behind.apply {offset : Span} {a b : Filter} (h : Behind offset a b)
    {input : Binary32} (hinput : 0 ≤ input) {now : Instant} (hnow : now.HasRoom offset) :
    Behind offset (a.apply input now).1 (b.apply input (now.later offset)).1 ∧
      (b.apply input (now.later offset)).2 = (a.apply input now).2 := by
  cases h with
  | passThrough => exact ⟨.passThrough, rfl⟩
  | fresh settings created created' =>
    simp only [Filter.apply, PeakHold.step_start hinput]
    refine ⟨.fed ⟨hnow, ?_⟩, trivial⟩
    intro since hsince
    obtain rfl := PeakHold.Phase.holding.inj hsince
    exact hnow
  | fed hp =>
    simp only [Filter.apply, PeakHold.step_later hp hnow]
    exact ⟨.fed (hp.step hnow input), rfl⟩

/-- A filter behind another is of the same kind: `b.kind = a.kind`. -/
theorem Filter.Behind.kind_eq {offset : Span} {a b : Filter} (h : Behind offset a b) :
    b.kind = a.kind := by
  cases h <;> rfl

/-! ## Samplers -/

namespace Sampler

variable {n : Nat} {offset : Span} {s : Sampler n} {now : Instant}

/-- A sampler under a clock that is ahead. -/
def later (s : Sampler n) (offset : Span) : Sampler n :=
  { s with opened := s.opened.later offset }

/-- A later sampler closes the same windows:
`(s.later offset).window? (now.later offset) = s.window? now`. -/
theorem window?_later (hs : s.opened.HasRoom offset) (hnow : now.HasRoom offset) :
    (s.later offset).window? (now.later offset) = s.window? now := by
  unfold window? later
  rw [Instant.since?_later hnow hs]

/-- **One reading.** A reading that closes a window closes it under either clock. -/
theorem update_later (hs : s.opened.HasRoom offset) (hnow : now.HasRoom offset)
    (counts : Vector UInt32 n) :
    (s.later offset).update counts (now.later offset) =
      { s.update counts now with sampler := (s.update counts now).sampler.later offset } := by
  have hwindow := window?_later hs hnow
  cases h : s.window? now with
  | none =>
    rw [update_of_window?_eq_none h, update_of_window?_eq_none (hwindow.trans h)]
  | some window =>
    rw [update_of_window?_eq_some h, update_of_window?_eq_some (hwindow.trans h)]
    rfl

end Sampler

/-! ## Routes -/

namespace Route

variable {n : Nat} {offset : Span} {a b : Route} {now : Instant}

/-- Two routes from one fan whose filters differ in their clocks only. -/
structure Behind (offset : Span) (a b : Route) : Prop where
  /-- They follow the same fan. -/
  source_eq : b.source = a.source
  /-- The second filter is the first one under a clock that is ahead. -/
  filter : a.filter.Behind offset b.filter

/-- No signal that a route takes after a window is negative:
`0 ≤ route.input (s.close counts window now)`. -/
theorem input_nonneg {s : Sampler n} {window : Span} (h : s.window? now = some window)
    (counts : Vector UInt32 n) (route : Route) : 0 ≤ route.input (s.close counts window now) := by
  have hpos := (Sampler.window?_eq_some_iff.mp h).2.2
  obtain ⟨pulses, hpulses⟩ :=
    Station.exists_frequency_eq hpos s.baseline counts route.source
  show 0 ≤ ((((s.close counts window now).frequencies)[route.source]?).getD 0).convert
  rw [Sampler.close, hpulses]
  exact Sampler.signalOver_nonneg hpos pulses

/-- Fed with the same frequencies, both routes give the same to their outputs. -/
theorem Behind.feed (h : Behind offset a b) {s t : Sampler n}
    (hsame : t.frequencies = s.frequencies) (hinput : 0 ≤ a.input s)
    (hnow : now.HasRoom offset) :
    Behind offset (a.feed s now).1 (b.feed t (now.later offset)).1 ∧
      (b.feed t (now.later offset)).2 = (a.feed s now).2 := by
  have heq : b.input t = a.input s := by
    rw [input, input, Sampler.frequency?, Sampler.frequency?, hsame, h.source_eq]
  obtain ⟨hfilter, hresult⟩ := h.filter.apply hinput hnow
  simp only [Route.feed, heq, hresult]
  exact ⟨⟨h.source_eq, hfilter⟩, trivial⟩

/-- A link is followed alike whenever the route is made, and the same is reported. -/
theorem behind_ofLink (offset : Span) (created created' : Instant) (link : Link) :
    Behind offset (ofLink created link).1 (ofLink created' link).1 := by
  rw [ofLink_eq, ofLink_eq]
  refine ⟨rfl, ?_⟩
  cases link.settings? with
  | none => exact .passThrough
  | some settings => exact .fresh settings created created'

/-- The report on a filter does not tell when it was made:
`link.refusal? created' = link.refusal? created`. -/
theorem refusal?_congr (created created' : Instant) (link : Link) :
    link.refusal? created' = link.refusal? created := by
  unfold Link.refusal?
  rw [PeakHold.Settings.read_peakHold, PeakHold.Settings.read_peakHold]
  cases PeakHold.Settings.ofText? link.settings <;> rfl

/-- **Links** are accepted whenever they are followed, with the same reports. -/
theorem ofLinks_of_ok {m : Nat} {links : Vector Link m} {created : Instant}
    {routes : Vector Route m} (h : (ofLinks n links created).result = .ok routes)
    (created' : Instant) :
    ∃ routes', (ofLinks n links created').result = .ok routes' ∧
      (ofLinks n links created').notices = (ofLinks n links created).notices := by
  obtain ⟨first, -, hlinks⟩ | ⟨hsource, hlinks⟩ := ofLinks_cases n links created
  · rw [hlinks] at h
    exact absurd h (by simp)
  · obtain ⟨first, hfirst, -⟩ | ⟨-, hlinks'⟩ := ofLinks_cases n links created'
    · exact absurd (hsource first) (Nat.not_lt.mpr hfirst.le_source)
    · have hkind (link : Link) : (ofLink created' link).1.filter.kind =
          (ofLink created link).1.filter.kind :=
        (behind_ofLink 0 created created' link).filter.kind_eq
      rw [hlinks, hlinks']
      refine ⟨_, rfl, ?_⟩
      simp only [hkind, funext (refusal?_congr created created')]

end Route

namespace Station

variable {n m : Nat} {offset : Span}

/-! ## Stations -/

/-- What comes of each event of a run, in order. -/
def responses (s : Station n m) : List (Event n) → List (Response n m)
  | [] => []
  | event :: events =>
    let response := s.respond event
    response :: response.station.responses events

/-- No events bring no responses: `s.responses [] = []`. -/
@[simp] theorem responses_nil (s : Station n m) : s.responses [] = [] := rfl

/-- The response to the first event comes first, and the others start from it: `s.responses (event
:: events) = s.respond event :: (s.respond event).station.responses events`. -/
@[simp] theorem responses_cons (s : Station n m) (event : Event n) (events : List (Event n)) :
    s.responses (event :: events) =
      s.respond event :: (s.respond event).station.responses events := rfl

/-- An event under a clock that is ahead. -/
def later (offset : Span) : Event n → Event n
  | .tick now => .tick (now.later offset)
  | event => event

/-- The second station is the first one under a clock that is ahead. -/
structure Behind (offset : Span) (s t : Station n m) : Prop where
  /-- They counted the same edges on the same pins. -/
  counters_eq : t.counters = s.counters
  /-- The second sampler is the first one under a clock that is ahead. -/
  sampler_eq : t.sampler = s.sampler.later offset
  /-- The clock that is ahead can count as far as the start of the open window. -/
  opened : s.sampler.opened.HasRoom offset
  /-- Their routes differ in their clocks only. -/
  routes : ∀ output, (s.routes.get output).Behind offset (t.routes.get output)
  /-- Their outputs have the same targets. -/
  targets_eq : t.targets = s.targets

/-- The same came of an event under both clocks. -/
structure Response.Behind (offset : Span) (a b : Response n m) : Prop where
  /-- Both rounds are accepted, or none. -/
  accepted_eq : b.accepted = a.accepted
  /-- Both events are refused for the same reason, or none is. -/
  fault_eq : b.fault = a.fault
  /-- The same is sent to the generator. -/
  commands_eq : b.commands = a.commands
  /-- The same is reported. -/
  notices_eq : b.notices = a.notices
  /-- The same frequencies were measured. -/
  frequencies_eq : b.station.sampler.frequencies = a.station.sampler.frequencies
  /-- The window that is open now was opened at the same time, by either clock. -/
  opened_eq : b.station.sampler.opened = a.station.sampler.opened.later offset
  /-- The outputs have the same targets. -/
  targets_eq : b.station.targets = a.station.targets

/-- What is wanted for the outputs does not depend on the routes that it came by:
`wanted fed' = wanted fed`. -/
theorem wanted_congr {fed fed' : Vector (Route × Binary64) m}
    (h : ∀ output, (fed'.get output).2 = (fed.get output).2) : wanted fed' = wanted fed := by
  unfold wanted
  refine List.ext_getElem (by simp) ?_
  intro output hlt hlt'
  have hm : output < m := by
    simpa using hlt
  have hfed : fed'[output].2 = fed[output].2 := h ⟨output, hm⟩
  simp [hfed]

namespace Behind

variable {s t : Station n m}

/-- Serving the outputs after a reading without negative signals, both stations do the same. -/
theorem serve (h : Behind offset s t) {reading : Sampler.Reading n} {now : Instant}
    (hsignal : ∀ route : Route, 0 ≤ route.input reading.sampler)
    (hopened : reading.sampler.opened.HasRoom offset) (hnow : now.HasRoom offset) :
    let first := s.serve reading now
    let second := t.serve { reading with sampler := reading.sampler.later offset }
      (now.later offset)
    Behind offset first.station second.station ∧ Response.Behind offset first second := by
  intro first second
  have hfed (output : Fin m) := (h.routes output).feed (s := reading.sampler)
    (t := reading.sampler.later offset) rfl (hsignal _) hnow
  have hround : t.targets.setAll (wanted (t.routes.map
      (Route.feed (reading.sampler.later offset) (now.later offset)))) =
        s.targets.setAll (wanted (s.routes.map (Route.feed reading.sampler now))) := by
    rw [h.targets_eq]
    refine congrArg _ (wanted_congr fun output => ?_)
    rw [get_map_feed, get_map_feed, (hfed output).2]
  have htargets := congrArg Targets.Round.targets hround
  constructor
  · constructor
    case counters_eq => exact h.counters_eq
    case sampler_eq => rfl
    case opened => exact hopened
    case routes =>
      intro output
      rw [routes_serve, routes_serve]
      exact (hfed output).1
    case targets_eq => exact htargets
  · constructor
    case accepted_eq => rfl
    case fault_eq => rfl
    case commands_eq => exact congrArg Targets.Round.commands hround
    case notices_eq => exact congrArg (reading.notices ++ Targets.Round.notices ·) hround
    case frequencies_eq => rfl
    case opened_eq => rfl
    case targets_eq => exact htargets

/-- Both stations answer alike when only their counters and targets are changed. -/
theorem response {a b : Response n m} (h : Behind offset a.station b.station)
    (haccepted : b.accepted = a.accepted) (hfault : b.fault = a.fault)
    (hcommands : b.commands = a.commands) (hnotices : b.notices = a.notices) :
    Response.Behind offset a b where
  accepted_eq := haccepted
  fault_eq := hfault
  commands_eq := hcommands
  notices_eq := hnotices
  frequencies_eq := (congrArg Sampler.frequencies h.sampler_eq :)
  opened_eq := congrArg Sampler.opened h.sampler_eq
  targets_eq := h.targets_eq

/-- **One round.** A round closes the same window in both stations and serves the outputs alike,
or does nothing in both. -/
theorem tick (h : Behind offset s t) {now : Instant} (hnow : now.HasRoom offset) :
    Behind offset (s.tick now).station (t.tick (now.later offset)).station ∧
      Response.Behind offset (s.tick now) (t.tick (now.later offset)) := by
  have hread := Sampler.update_later h.opened hnow s.counters.counts
  rw [← h.sampler_eq, ← h.counters_eq] at hread
  unfold Station.tick
  rw [Sampler.read_eq, Sampler.read_eq, hread, h.counters_eq]
  cases hwindow : s.sampler.window? now with
  | none =>
    rw [Sampler.update_of_window?_eq_none hwindow]
    exact ⟨h, h.response rfl rfl rfl rfl⟩
  | some window =>
    rw [Sampler.update_of_window?_eq_some hwindow]
    exact h.serve (Route.input_nonneg hwindow _) hnow hnow

/-- **One event.** Both stations answer alike, and afterwards they still differ in their clocks
only. -/
theorem respond (h : Behind offset s t) (event : Event n)
    (hnow : ∀ now, event = .tick now → now.HasRoom offset) :
    Behind offset (s.respond event).station (t.respond (later offset event)).station ∧
      Response.Behind offset (s.respond event) (t.respond (later offset event)) := by
  cases event with
  | tick now => exact h.tick (hnow now rfl)
  | edge pin =>
    have hstation : Behind offset (s.respond (.edge pin)).station
        (t.respond (.edge pin)).station :=
      { h with counters_eq := congrArg (Counters.edge · pin) h.counters_eq }
    exact ⟨hstation, hstation.response rfl rfl rfl rfl⟩
  | configure pins =>
    have hdone : t.counters.configure pins = s.counters.configure pins := by
      rw [h.counters_eq]
    have hstation : Behind offset (s.respond (.configure pins)).station
        (t.respond (.configure pins)).station :=
      { h with counters_eq := congrArg Counters.Configuration.counters hdone }
    exact ⟨hstation, hstation.response rfl (congrArg Counters.Configuration.fault hdone) rfl
      (congrArg Counters.Configuration.notices hdone)⟩
  | set channel wanted =>
    have hchange : t.targets.set channel wanted = s.targets.set channel wanted := by
      rw [h.targets_eq]
    have hstation : Behind offset (s.respond (.set channel wanted)).station
        (t.respond (.set channel wanted)).station :=
      { h with targets_eq := congrArg Targets.Change.targets hchange }
    exact ⟨hstation, hstation.response rfl (congrArg Targets.Change.fault hchange)
      (congrArg Targets.Change.commands hchange) (congrArg Targets.Change.notices hchange)⟩

/-- **A run.** Both stations answer alike to every event. -/
theorem responses (h : Behind offset s t) (events : List (Event n))
    (hroom : ∀ now ∈ times events, now.HasRoom offset) :
    List.Forall₂ (Response.Behind offset) (s.responses events)
      (t.responses (events.map (later offset))) := by
  induction events generalizing s t with
  | nil => exact .nil
  | cons event events ih =>
    obtain ⟨hstation, hresponse⟩ := h.respond event fun now hnow =>
      hroom now (List.mem_filterMap.mpr ⟨event, List.mem_cons_self, hnow ▸ rfl⟩)
    refine .cons hresponse (ih hstation fun now hnow => hroom now ?_)
    obtain ⟨event', hmem, htime⟩ := List.mem_filterMap.mp hnow
    exact List.mem_filterMap.mpr ⟨event', List.mem_cons_of_mem _ hmem, htime⟩

end Behind

/-! ## Runs -/

/-- **The origin of the clock does not matter.** Whatever links are accepted, whatever counters and
targets the station starts with, and whatever happens to it at whatever times: with the station
made later by an offset, and every round later by the same offset, each event has the same
outcome, and only the start of the open window is later by that offset. -/
theorem responses_later {links : Vector Link m} {created : Instant} {routes : Vector Route m}
    (h : (Route.ofLinks n links created).result = .ok routes) (hcreated : created.HasRoom offset)
    (counters : Counters n) (targets : Targets m) (minLength : Span) (events : List (Event n))
    (hroom : ∀ now ∈ times events, now.HasRoom offset) :
    ∃ routes', (Route.ofLinks n links (created.later offset)).result = .ok routes' ∧
      (Route.ofLinks n links (created.later offset)).notices =
        (Route.ofLinks n links created).notices ∧
      List.Forall₂ (Response.Behind offset)
        (responses ⟨counters, .start created minLength, routes, targets⟩ events)
        (responses ⟨counters, .start (created.later offset) minLength, routes', targets⟩
          (events.map (later offset))) := by
  obtain ⟨routes', hroutes', hnotices⟩ := Route.ofLinks_of_ok h (created.later offset)
  refine ⟨routes', hroutes', hnotices, ?_⟩
  refine Behind.responses ?_ events hroom
  refine ⟨rfl, rfl, hcreated, ?_, rfl⟩
  intro output
  rw [(Route.ofLinks_eq_ok h output).1, (Route.ofLinks_eq_ok hroutes' output).1]
  exact Route.behind_ofLink offset _ _ _

/-- Two pulses in the first second, a round for which the clock went backwards, and a last round
after the peak has dropped. -/
def skewedRun : List (Event 1) :=
  [.edge 4, .edge 4, .tick ⟨100000000⟩, .tick ⟨50000000⟩, .tick ⟨260000000⟩]

/-- With a peak hold on the way, which has dropped at the last round, the run goes the same a
minute later. -/
theorem responses_later_skewedRun :
    let routes : Vector Route 1 := #v[(Route.ofLink ⟨0⟩ fallingLink).1]
    let run : List (Event 1) := .configure #v[4] :: skewedRun
    (Route.ofLinks 1 #v[fallingLink] ⟨0⟩).result = .ok routes ∧
      Instant.HasRoom ⟨6000000000⟩ ⟨0⟩ ∧
      (∀ now ∈ times run, now.HasRoom ⟨6000000000⟩) ∧
      (responses ⟨.empty, .start ⟨0⟩ Sampler.usualLength, routes, .off⟩ run).map
        (·.accepted) = [false, false, false, true, false, true] ∧
      ∃ routes', (Route.ofLinks 1 #v[fallingLink] ⟨6000000000⟩).result = .ok routes' ∧
        (Route.ofLinks 1 #v[fallingLink] ⟨6000000000⟩).notices =
          (Route.ofLinks 1 #v[fallingLink] ⟨0⟩).notices ∧
        List.Forall₂ (Response.Behind ⟨6000000000⟩)
          (responses ⟨.empty, .start ⟨0⟩ Sampler.usualLength, routes, .off⟩ run)
          (responses ⟨.empty, .start ⟨6000000000⟩ Sampler.usualLength, routes', .off⟩
            (run.map (later ⟨6000000000⟩))) := by
  intro routes run
  have hroutes : (Route.ofLinks 1 #v[fallingLink] ⟨0⟩).result = .ok routes := by
    decide +kernel
  have hcreated : Instant.HasRoom ⟨6000000000⟩ ⟨0⟩ := by
    unfold Instant.HasRoom
    decide
  have hroom : ∀ now ∈ times run, now.HasRoom ⟨6000000000⟩ := by
    unfold Instant.HasRoom
    decide
  exact ⟨hroutes, hcreated, hroom, by decide +kernel,
    responses_later hroutes hcreated .empty .off Sampler.usualLength run hroom⟩

end Station

end Tachometer
