import Tachometer.Proofs.Filter.Lifting
import Tachometer.Proofs.Relay.Links
import Tachometer.Proofs.Relay.Refinement

/-! # The envelope of the outputs

An output should give a speed that its fan has had: no less than was just measured, no more than
the highest that was measured. Whether it does depends on the settings of the peak holds alone.

* `Station.sampled_calls` — what a filter is fed in a run are the calls of a sampler.
* `Station.exists_run` — all calls of a sampler are what a filter is fed in some run.
* `Link.settings?` — the settings of the peak hold that a link asks for.
* `Station.keepsEnvelope_iff_neverLifts` — every output of every run keeps to the envelope exactly
  when no link asks for settings that can lift a peak. -/

namespace Tachometer

/-! ## Filters of links -/

/-- The settings of the peak hold that a link asks for, if it asks for one and its settings are
accepted. -/
def Link.settings? (link : Link) : Option PeakHold.Settings :=
  if Kind.ofName link.filter = .peakHold then PeakHold.Settings.ofText? link.settings else none

/-- The settings of a link have a finite rate: `settings.rate.isFinite = true`. -/
theorem Link.isFinite_rate {link : Link} {settings : PeakHold.Settings}
    (h : link.settings? = some settings) : settings.rate.isFinite = true := by
  unfold settings? at h
  split at h
  · exact PeakHold.Settings.isFinite_rate h
  · exact absurd h (by simp)

/-- The call that a sample makes to the filter of a fan's route. -/
def Meter.Sample.call {n : Nat} (source : Nat) (sample : Sample n) : Binary32 × Instant :=
  (sample.signal source, sample.time)

namespace Route

variable {n m : Nat}

/-- A link is followed with the peak hold that it asks for, or without a filter. -/
theorem ofLink_eq (created : Instant) (link : Link) :
    (ofLink created link).1 =
      ⟨link.source, match link.settings? with
        | some settings => .peakHold (.start settings created)
        | none => .passThrough⟩ := by
  unfold ofLink Link.settings?
  rw [Filter.configured_eq]
  cases Kind.ofName link.filter with
  | passThrough => rfl
  | peakHold => cases PeakHold.Settings.ofText? link.settings <;> rfl

/-- The routes of links that are not refused follow them, each to a fan that exists. -/
theorem ofLinks_eq_ok {links : Vector Link m} {created : Instant} {routes : Vector Route m}
    (h : (ofLinks n links created).result = .ok routes) (output : Fin m) :
    routes.get output = (ofLink created (links.get output)).1 ∧ (routes.get output).source < n := by
  obtain ⟨first, -, hlinks⟩ | ⟨hsource, hlinks⟩ := ofLinks_cases n links created
  · rw [hlinks] at h
    exact absurd h (by simp)
  · rw [hlinks] at h
    obtain rfl := Except.ok.inj h
    have hroute : ((links.map (ofLink created)).map (·.1)).get output =
        (ofLink created (links.get output)).1 :=
      (Vector.getElem_map _ output.isLt).trans
        (congrArg Prod.fst (Vector.getElem_map _ output.isLt))
    rw [hroute]
    exact ⟨rfl, hsource output⟩

/-- A peak hold is run with the calls of the samples. -/
theorem after_peakHold (source : Nat) (p : PeakHold) (samples : List (Meter.Sample n)) :
    (⟨source, .peakHold p⟩ : Route).after samples =
      ⟨source, .peakHold (p.run (samples.map (Meter.Sample.call source)))⟩ := by
  induction samples generalizing p with
  | nil => rfl
  | cons sample samples ih => exact ih _

/-- Samples do not change a route without a filter:
`(⟨source, .passThrough⟩ : Route).after samples = ⟨source, .passThrough⟩`. -/
theorem after_passThrough (source : Nat) (samples : List (Meter.Sample n)) :
    (⟨source, .passThrough⟩ : Route).after samples = ⟨source, .passThrough⟩ := by
  induction samples with
  | nil => rfl
  | cons sample samples ih => exact ih

end Route

namespace Station

variable {n m : Nat}

/-! ## Calls of a run -/

/-- No run changes the least length of a window:
`(s.after events).sampler.minLength = s.sampler.minLength`. -/
theorem minLength_after (s : Station n m) (events : List (Event n)) :
    (s.after events).sampler.minLength = s.sampler.minLength := by
  induction events generalizing s with
  | nil => rfl
  | cons event events ih =>
    rw [after_cons, ih]
    cases event with
    | tick now =>
      show (s.tick now).station.sampler.minLength = _
      cases h : (s.meter.read now).accepted with
      | true =>
        rw [tick_of_accepted h]
        exact Sampler.minLength_update s.sampler s.counters.snapshot now
      | false => rw [tick_of_rejected h]
    | configure pins | edge pin | set channel wanted => rfl

/-- The frequency of a fan, whether it exists or not, is that of some pulses in the window. -/
theorem exists_frequency_eq {window : Span} (hpos : 0 < window.microseconds)
    (baseline counts : Vector UInt32 n) (source : Nat) :
    ∃ pulses, ((baseline.zipWith (Sampler.frequencyOver window) counts)[source]?).getD 0 =
      Sampler.frequencyOver window 0 pulses := by
  by_cases h : source < n
  · refine ⟨counts[source] - baseline[source], ?_⟩
    rw [Vector.getElem?_eq_getElem h, Vector.getElem_zipWith, Option.getD_some,
      Sampler.frequencyOver_eq_sub]
  · refine ⟨0, ?_⟩
    rw [Sampler.frequencyOver_zero hpos, Vector.getElem?_eq_none (Nat.not_lt.mp h),
      Option.getD_none]

/-- A round that closes no window brings no sample: `s.samples [.tick now] = []`. -/
theorem samples_tick_of_window?_eq_none {s : Station n m} {now : Instant}
    (h : s.sampler.window? now = none) : s.samples [.tick now] = [] := by
  have hread : (s.meter.read now).accepted = false := by
    rw [meter, Meter.read_eq, Sampler.update_of_window?_eq_none h]
  simp [samples, measured, measured?, Meter.sample?, hread]

/-- A round that closes a window brings one sample, with what the counters have gained on the
baseline over the length of the window. -/
theorem samples_tick_of_window?_eq_some {s : Station n m} {now : Instant} {window : Span}
    (h : s.sampler.window? now = some window) :
    s.samples [.tick now] =
      [⟨now, s.sampler.baseline.zipWith (Sampler.frequencyOver window) s.counters.counts⟩] := by
  have hread : s.meter.read now = s.sampler.update s.counters.counts now :=
    s.meter.read_eq now
  rw [Sampler.update_of_window?_eq_some h] at hread
  simp [samples, measured, measured?, Meter.sample?, hread, Sampler.close]

/-- **Calls of a run.** What the filter of a fan is fed are the calls of a sampler. -/
theorem sampled_calls {s : Station n m} {created : Instant}
    (hs : s.sampler = .start created Sampler.usualLength) (source : Nat)
    (events : List (Event n)) :
    PeakHold.Sampled created ((s.samples events).map (Meter.Sample.call source))
      (s.after events).sampler.opened := by
  -- induction on the run from its end; the sampler's open window is the one after the last call
  induction events using List.reverseRecOn with
  | nil =>
    have hopened : s.sampler.opened = created := by
      rw [hs]
      rfl
    exact hopened ▸ .nil
  | append_singleton events event ih =>
    have hlength : (s.after events).sampler.minLength = Sampler.usualLength := by
      rw [minLength_after, hs]
      rfl
    rw [samples_append, after_append, List.map_append]
    generalize s.after events = t at ih hlength ⊢
    cases event with
    | tick now =>
      show PeakHold.Sampled created _ (t.tick now).station.sampler.opened
      cases hwindow : t.sampler.window? now with
      | none =>
        rw [samples_tick_of_window?_eq_none hwindow, tick_of_window?_eq_none hwindow, List.map_nil,
          List.append_nil]
        exact ih
      | some window =>
        have husual := hlength ▸ (Sampler.window?_eq_some_iff.mp hwindow).2.1
        obtain ⟨pulses, hfrequency⟩ := exists_frequency_eq (PeakHold.microseconds_pos husual)
          t.sampler.baseline t.counters.counts source
        have hopened : (t.tick now).station.sampler.opened = now := by
          rw [tick_of_window?_eq_some hwindow, Sampler.update_of_window?_eq_some hwindow]
          rfl
        rw [samples_tick_of_window?_eq_some hwindow, List.map_singleton, Meter.Sample.call,
          Meter.Sample.signal, hfrequency, hopened]
        exact ih.concat (Sampler.since?_of_window?_eq_some hwindow) husual pulses
    | configure pins | edge pin | set channel wanted =>
      show PeakHold.Sampled created (_ ++ []) t.sampler.opened
      rwa [List.append_nil]

/-! ## Runs for calls -/

/-- The time of a round. -/
def tickTime? : Event n → Option Instant
  | .tick now => some now
  | _ => none

/-- The times of the rounds in a run. -/
def times (events : List (Event n)) : List Instant := events.filterMap tickTime?

/-- A run of edges and rounds whose clock does not go backwards. -/
structure Orderly (events : List (Event n)) : Prop where
  /-- Nothing else happens. -/
  only : ∀ event ∈ events, (∃ pin, event = .edge pin) ∨ ∃ now, event = .tick now
  /-- The times of the rounds do not decrease. -/
  sorted : (times events).Pairwise fun a b => a.ticks.toNat ≤ b.ticks.toNat

/-- Runs of edges and rounds bind no pins:
`(s.after events).counters.bound? pin = s.counters.bound? pin`. -/
theorem bound?_after_of_only {s : Station n m} {events : List (Event n)}
    (h : ∀ event ∈ events, (∃ pin, event = .edge pin) ∨ ∃ now, event = .tick now) (pin : Nat) :
    (s.after events).counters.bound? pin = s.counters.bound? pin := by
  induction events generalizing s with
  | nil => rfl
  | cons event events ih =>
    rw [after_cons, ih fun event hmem => h event (List.mem_cons_of_mem _ hmem),
      bound?_respond_of_only (h event List.mem_cons_self)]

/-- Edges on the pin of a channel are counted, and nothing else happens. -/
theorem after_replicate_edge (s : Station n m) {pin : Nat} {channel : Fin n}
    (h : s.counters.bound? pin = some channel.val) (count : Nat) :
    (s.after (List.replicate count (.edge pin))).counters.counts.get channel =
        s.counters.counts.get channel + .ofNat count ∧
      (s.after (List.replicate count (.edge pin))).sampler = s.sampler ∧
      s.samples (List.replicate count (.edge pin)) = [] := by
  induction count generalizing s with
  | zero => exact ⟨(UInt32.add_zero _).symm, rfl, rfl⟩
  | succ count ih =>
    have hbound : (s.counters.edge pin).bound? pin = some channel.val := by
      rw [Counters.bound?_congr (Counters.table_edge _ pin), h]
    obtain ⟨hcounts, hsampler, hsamples⟩ := ih (s.respond (.edge pin)).station hbound
    have hedge : (s.respond (.edge pin)).station.counters.counts.get channel =
        s.counters.counts.get channel + 1 := by
      rw [respond, Counters.counts_edge, if_pos h]
    rw [List.replicate_succ, after_cons, hcounts, hsampler, hedge, samples_cons, hsamples]
    refine ⟨?_, rfl, rfl⟩
    rw [UInt32.ofNat_add]
    grind

/-- **One round.** With the right number of edges before it, a round finds any number of pulses in
its window. -/
theorem exists_round {s : Station n m} {pin : Nat} {channel : Fin n}
    (hbound : s.counters.bound? pin = some channel.val) {now : Instant} {window : Span}
    (hwindow : s.sampler.window? now = some window) (pulses : UInt32) :
    ∃ count, ((s.after (List.replicate count (.edge pin))).tick now).accepted = true ∧
      (s.samples (List.replicate count (.edge pin) ++ [.tick now])).map
        (Meter.Sample.call channel.val) = [(Sampler.signalOver window pulses, now)] := by
  -- the counter may stand anywhere already, so the edges make up for what is missing
  refine ⟨(pulses - (s.counters.counts.get channel - s.sampler.baseline.get channel)).toNat, ?_⟩
  obtain ⟨hcounts, hsampler, hsamples⟩ := s.after_replicate_edge hbound
    (pulses - (s.counters.counts.get channel - s.sampler.baseline.get channel)).toNat
  rw [samples_append, hsamples, List.nil_append]
  generalize s.after _ = t at hcounts hsampler ⊢
  rw [← hsampler] at hwindow
  have hpulses : t.counters.counts.get channel - t.sampler.baseline.get channel = pulses := by
    rw [hcounts, hsampler, UInt32.ofNat_toNat]
    grind
  refine ⟨?_, ?_⟩
  · rw [tick_of_window?_eq_some hwindow]
    rfl
  · replace hpulses : t.counters.counts[channel.val] - t.sampler.baseline[channel.val] = pulses :=
      hpulses
    simp [samples_tick_of_window?_eq_some hwindow, Meter.Sample.call, Meter.Sample.signal,
      Sampler.frequencyOver_eq_sub, hpulses, Sampler.signalOver]

/-- A round late enough closes a window: `s.window? now = some window`. -/
theorem window?_eq_some {s : Sampler n} {opened now : Instant} {window : Span}
    (hopened : s.opened = opened) (hlength : s.minLength = Sampler.usualLength)
    (hwindow : now.since? opened = some window) (husual : Sampler.usualLength ≤ window) :
    s.window? now = some window := by
  subst hopened
  exact Sampler.window?_eq_some_iff.mpr
    ⟨hwindow, hlength ▸ husual, PeakHold.microseconds_pos husual⟩

/-- **Runs for calls.** All calls of a sampler are what the filter of a fan is fed in some run. -/
theorem exists_run {s : Station n m} {created opened : Instant}
    (hs : s.sampler = .start created Sampler.usualLength) {pin : Nat} {channel : Fin n}
    (hbound : s.counters.bound? pin = some channel.val) {calls : List (Binary32 × Instant)}
    (h : PeakHold.Sampled created calls opened) :
    ∃ events, Orderly events ∧ times events = calls.map Prod.snd ∧
      (s.samples events).map (Meter.Sample.call channel.val) = calls ∧
      (calls ≠ [] → ∃ earlier now, events = earlier ++ [.tick now] ∧
        ((s.after earlier).tick now).accepted = true) := by
  induction h with
  | nil => exact ⟨[], ⟨by simp, .nil⟩, rfl, rfl, fun hne => absurd rfl hne⟩
  | @concat calls opened now window h hwindow husual pulses ih =>
    obtain ⟨events, horderly, htimes, hcalls, -⟩ := ih
    -- the run so far leaves the sampler in the window that the next call closes
    have hopened : (s.after events).sampler.opened = opened := by
      have hsampled := sampled_calls hs channel.val events
      rw [hcalls] at hsampled
      rw [hsampled.opened_eq, ← h.opened_eq]
    have hlength : (s.after events).sampler.minLength = Sampler.usualLength := by
      rw [minLength_after, hs]
      rfl
    have hbound' : (s.after events).counters.bound? pin = some channel.val := by
      rw [bound?_after_of_only horderly.only, hbound]
    obtain ⟨count, haccepted, hcall⟩ := exists_round hbound'
      (window?_eq_some hopened hlength hwindow husual) pulses
    have htimes' : times (events ++ (List.replicate count (.edge pin) ++ [.tick now])) =
        (calls ++ [(Sampler.signalOver window pulses, now)]).map Prod.snd := by
      have hedges : times (List.replicate count (.edge pin : Event n)) = [] := by
        simp [times, tickTime?]
      rw [times, List.filterMap_append, List.filterMap_append, ← times, ← times, hedges, htimes,
        List.map_append]
      rfl
    refine ⟨_, ⟨?_, ?_⟩, htimes', ?_,
      fun _ => ⟨events ++ List.replicate count (.edge pin), now, ?_⟩⟩
    · intro event hmem
      rcases List.mem_append.mp hmem with hmem | hmem
      · exact horderly.only event hmem
      · rcases List.mem_append.mp hmem with hmem | hmem
        · exact .inl ⟨pin, List.eq_of_mem_replicate hmem⟩
        · exact .inr ⟨now, List.mem_singleton.mp hmem⟩
    · rw [htimes']
      exact (h.concat hwindow husual pulses).sorted
    · rw [samples_append, List.map_append, hcalls, hcall]
    · rw [List.append_assoc, after_append]
      exact ⟨rfl, haccepted⟩

/-! ## The envelope -/

/-- After a round that is accepted every target is between the signal just measured at its fan and
the highest one measured, and is not off when the fan was just measured turning. -/
def KeepsEnvelope (s : Station n m) (events : List (Event n)) (now : Instant) : Prop :=
  ((s.after events).tick now).accepted = true → ∀ output : Fin m,
    PeakHold.Enveloped
        ((s.samples (events ++ [.tick now])).map (·.signal (s.routes.get output).source))
        (((s.after events).tick now).station.targets.frequencies.get output) ∧
      (0 < (((s.after events).tick now).station.sampler.frequency?
          (s.routes.get output).source).getD 0 →
        0 < ((s.after events).tick now).station.targets.frequencies.get output)

/-- An accepted round brings one sample. -/
theorem samples_concat_tick {s : Station n m} {events : List (Event n)} {now : Instant}
    (h : ((s.after events).tick now).accepted = true) :
    s.samples (events ++ [.tick now]) =
      s.samples events ++
        [⟨now, ((s.after events).tick now).station.sampler.frequencies⟩] := by
  rw [Station.accepted_tick] at h
  rw [samples_append, tick_of_accepted h]
  simp [samples, measured, measured?, Meter.sample?, h, serve]

/-- **The target of a peak hold** is its peak after the calls of all samples. -/
theorem target_of_peakHold {s : Station n m} (ht : s.targets.Unsigned) {events : List (Event n)}
    {now : Instant} (h : ((s.after events).tick now).accepted = true) {output : Fin m}
    {source : Nat} {p : PeakHold} (hroute : s.routes.get output = ⟨source, .peakHold p⟩) :
    ((s.after events).tick now).station.targets.frequencies.get output =
      usable (p.run ((s.samples (events ++ [.tick now])).map
        (Meter.Sample.call source))).peak.convert := by
  have hread := h
  rw [Station.accepted_tick] at hread
  rw [samples_concat_tick h, tick_of_accepted hread, targets_serve (unsigned_after ht events),
    routes_after, hroute, Route.after_peakHold, List.map_append, List.map_singleton,
    PeakHold.run_concat]
  rfl

/-- **The target without a filter** is the last signal. -/
theorem target_of_passThrough {s : Station n m} (ht : s.targets.Unsigned)
    {events : List (Event n)} {now : Instant}
    (h : ((s.after events).tick now).accepted = true) {output : Fin m} {source : Nat}
    (hroute : s.routes.get output = ⟨source, .passThrough⟩) :
    ((s.after events).tick now).station.targets.frequencies.get output =
      usable ((⟨now, ((s.after events).tick now).station.sampler.frequencies⟩ :
        Meter.Sample n).signal source).convert := by
  rw [Station.accepted_tick] at h
  rw [tick_of_accepted h, targets_serve (unsigned_after ht events), routes_after, hroute,
    Route.after_passThrough]
  rfl

/-- **A turning fan.** The signal of a fan that was measured turning is positive. -/
theorem signal_pos {s : Station n m} {now : Instant} (h : (s.tick now).accepted = true)
    {source : Nat} (hturning : 0 < ((s.tick now).station.sampler.frequency? source).getD 0) :
    0 < (⟨now, (s.tick now).station.sampler.frequencies⟩ : Meter.Sample n).signal source := by
  cases hwindow : s.sampler.window? now with
  | none =>
    rw [tick_of_window?_eq_none hwindow] at h
    exact absurd h (by simp)
  | some window =>
    have hpos : 0 < window.microseconds := (Sampler.window?_eq_some_iff.mp hwindow).2.2
    have hfrequencies : (s.tick now).station.sampler.frequencies =
        s.sampler.baseline.zipWith (Sampler.frequencyOver window) s.counters.counts := by
      rw [tick_of_window?_eq_some hwindow, Sampler.update_of_window?_eq_some hwindow]
      rfl
    obtain ⟨pulses, hfrequency⟩ :=
      exists_frequency_eq hpos s.sampler.baseline s.counters.counts source
    rw [Sampler.frequency?, hfrequencies, hfrequency, Sampler.frequencyOver_pos_iff hpos]
      at hturning
    rw [Meter.Sample.signal, hfrequencies, hfrequency]
    exact Sampler.signalOver_pos hpos hturning

/-- A target that is enveloped is not off when the fan turns. -/
theorem target_pos_of_enveloped {inputs : List Binary32} {target : Binary64} {last : Binary32}
    (h : PeakHold.Enveloped (inputs ++ [last]) target) (hpos : 0 < last) : 0 < target := by
  have hwide : 0 < (last.convert : Binary64) := by
    have hlt := (Binary.convert_lt_convert_iff Format.binary32_fits_binary64 Binary.zero_ne_nan
      (Binary.ne_nan_of_le (Binary.le_of_lt hpos)).2).mpr hpos
    rwa [Binary.convert_zero] at hlt
  exact Binary.lt_of_lt_of_le hwide (h.1 last (by simp))

/-- **Links that never lift a peak** keep every output within the envelope. -/
theorem keepsEnvelope_of_neverLifts {s : Station n m} {created : Instant} {links : Vector Link m}
    (hs : s.sampler = .start created Sampler.usualLength) (ht : s.targets.Unsigned)
    (hroutes : ∀ output : Fin m, s.routes.get output = (Route.ofLink created (links.get output)).1)
    (hlifts : ∀ (output : Fin m) settings, (links.get output).settings? = some settings →
      settings.NeverLifts created)
    (events : List (Event n)) (now : Instant) : s.KeepsEnvelope events now := by
  intro hacc output
  have hroute := hroutes output
  have hsampled := sampled_calls hs (links.get output).source (events ++ [.tick now])
  have hsource : (s.routes.get output).source = (links.get output).source := by
    rw [hroute, Route.ofLink_eq]
  have hsamples := samples_concat_tick hacc
  have henveloped : PeakHold.Enveloped
      ((s.samples (events ++ [.tick now])).map (·.signal (s.routes.get output).source))
      (((s.after events).tick now).station.targets.frequencies.get output) := by
    rw [Route.ofLink_eq] at hroute
    cases hsettings : (links.get output).settings? with
    | none =>
      rw [hsettings] at hroute
      -- without a filter the target is the last signal itself
      rw [target_of_passThrough ht hacc hroute, hsource, hsamples, List.map_append,
        List.map_singleton]
      rw [hsamples, List.map_append, List.map_singleton] at hsampled
      obtain ⟨hfin, hnonneg⟩ :=
        hsampled.input_bounds _ (List.mem_append_right _ (List.mem_singleton_self _))
      exact PeakHold.enveloped_concat_self _ hfin hnonneg
    | some settings =>
      rw [hsettings] at hroute
      have hne : (s.samples (events ++ [.tick now])).map
          (Meter.Sample.call (links.get output).source) ≠ [] := by
        simp [hsamples]
      have h := hsampled.enveloped hne (Link.isFinite_rate hsettings)
        (hlifts output settings hsettings)
      rw [List.map_map] at h
      rw [target_of_peakHold ht hacc hroute, hsource]
      exact h
  refine ⟨henveloped, ?_⟩
  intro hturning
  rw [hsamples, List.map_append, List.map_singleton] at henveloped
  exact target_pos_of_enveloped henveloped (signal_pos hacc hturning)

/-- **Which links keep the envelope.** For links that are not refused and counters that listen on
pins, every output keeps to the envelope in every run of edges and rounds exactly when no link asks
for settings that can lift a peak. -/
theorem keepsEnvelope_iff_neverLifts (links : Vector Link m) (created : Instant)
    {routes : Vector Route m} (hroutes : (Route.ofLinks n links created).result = .ok routes)
    (history : List (Counters.Event n)) {pins : Vector Nat n}
    (hpins : Counters.configured? history = some pins) (changes : List (Nat × Binary64)) :
    (∀ events now, Orderly (events ++ [.tick now]) →
      KeepsEnvelope ⟨Counters.empty.after history, .start created Sampler.usualLength, routes,
        (Targets.off.setAll changes).targets⟩ events now) ↔
      ∀ (output : Fin m) settings, (links.get output).settings? = some settings →
        settings.NeverLifts created := by
  generalize hs : (⟨Counters.empty.after history, .start created Sampler.usualLength, routes,
    (Targets.off.setAll changes).targets⟩ : Station n m) = s
  have hsampler : s.sampler = .start created Sampler.usualLength := by
    rw [← hs]
  have ht : s.targets.Unsigned := by
    rw [← hs]
    exact Targets.unsigned_off.setAll changes
  have hroute : ∀ output : Fin m,
      s.routes.get output = (Route.ofLink created (links.get output)).1 := by
    intro output
    rw [← hs]
    exact (Route.ofLinks_eq_ok hroutes output).1
  constructor
  · intro hkeeps output settings hsettings
    apply (PeakHold.enveloped_iff_neverLifts (Link.isFinite_rate hsettings)).mp
    intro calls opened hsampled hne
    -- whatever calls a sampler can make, some run makes them to this filter
    obtain ⟨channel, hchannel⟩ : ∃ channel : Fin n, channel.val = (links.get output).source := by
      have h := Route.ofLinks_eq_ok hroutes output
      rw [h.1, Route.ofLink_eq] at h
      exact ⟨⟨_, h.2⟩, rfl⟩
    have hbound : s.counters.bound? (pins.get channel) = some channel.val := by
      rw [← hs]
      exact Counters.bound?_after_getElem hpins channel
    obtain ⟨events, horderly, -, hcalls, hlast⟩ := exists_run hsampler hbound hsampled
    obtain ⟨earlier, now, rfl, hacc⟩ := hlast hne
    have hkept := (hkeeps earlier now horderly hacc output).1
    have hpeak := hroute output
    rw [Route.ofLink_eq, hsettings] at hpeak
    rw [target_of_peakHold ht hacc hpeak] at hkept
    have hsource : (s.routes.get output).source = channel.val := by
      rw [hpeak, hchannel]
    rw [hsource, ← hchannel] at hkept
    rw [← hcalls, List.map_map]
    exact hkept
  · intro hlifts events now _
    exact keepsEnvelope_of_neverLifts hsampler ht hroute hlifts events now

/-- A link that asks for a drop of two a second after half a second. -/
def fallingLink : Link := ⟨0, "lossypeak", "2.0,0.5"⟩

/-- The link is not refused, and as its rate is not negative, every run keeps to the envelope. -/
theorem keepsEnvelope_fallingLink :
    (Route.ofLinks 1 #v[fallingLink] ⟨0⟩).result = .ok #v[(Route.ofLink ⟨0⟩ fallingLink).1] ∧
      ∀ events now, Orderly (events ++ [.tick now]) →
        KeepsEnvelope ⟨(Counters.empty.after [.configure #v[4]] : Counters 1),
          .start ⟨0⟩ Sampler.usualLength, #v[(Route.ofLink ⟨0⟩ fallingLink).1],
          (Targets.off.setAll []).targets⟩ events now := by
  have hroutes : (Route.ofLinks 1 #v[fallingLink] ⟨0⟩).result =
      .ok #v[(Route.ofLink ⟨0⟩ fallingLink).1] := by
    decide +kernel
  have hpins : Counters.configured? [.configure #v[4]] = some #v[4] := by
    decide +kernel
  have hread : fallingLink.settings? = some ⟨.ofNat 2, ⟨50000000⟩⟩ := by
    decide +kernel
  have hrate : 0 ≤ (.ofNat 2 : Binary32) := by
    decide +kernel
  refine ⟨hroutes, (keepsEnvelope_iff_neverLifts _ ⟨0⟩ hroutes _ hpins []).mpr ?_⟩
  intro output settings hsettings
  obtain rfl : output = 0 := Subsingleton.elim _ _
  obtain rfl := Option.some.inj (hread.symm.trans hsettings)
  exact PeakHold.Settings.neverLifts_of_rate_nonneg (Link.isFinite_rate hread) hrate ⟨0⟩

/-- A link that asks for a drop of minus five a second at once, which is a rise. -/
def risingLink : Link := ⟨0, "lossypeak", "-5,0"⟩

/-- The link is not refused, and after ten pulses in the first second and none in the next the
output is at fifteen. -/
theorem not_keepsEnvelope_risingLink :
    (Route.ofLinks 1 #v[risingLink] ⟨0⟩).result = .ok #v[(Route.ofLink ⟨0⟩ risingLink).1] ∧
      Orderly (List.replicate 10 (.edge 4) ++ [.tick ⟨100000000⟩] ++ [.tick ⟨200000000⟩] :
        List (Event 1)) ∧
      ¬KeepsEnvelope ⟨(Counters.empty.after [.configure #v[4]] : Counters 1),
        .start ⟨0⟩ Sampler.usualLength, #v[(Route.ofLink ⟨0⟩ risingLink).1],
        (Targets.off.setAll []).targets⟩
        (List.replicate 10 (.edge 4) ++ [.tick ⟨100000000⟩]) ⟨200000000⟩ := by
  refine ⟨by decide +kernel, ⟨?_, by decide +kernel⟩, ?_⟩
  · intro event hmem
    rcases List.mem_append.mp hmem with hmem | hmem
    · rcases List.mem_append.mp hmem with hmem | hmem
      · exact .inl ⟨4, List.eq_of_mem_replicate hmem⟩
      · exact .inr ⟨_, List.mem_singleton.mp hmem⟩
    · exact .inr ⟨_, List.mem_singleton.mp hmem⟩
  · intro h
    have hbound := (h (by decide +kernel) 0).1.2
    revert hbound
    decide +kernel

end Station

end Tachometer
