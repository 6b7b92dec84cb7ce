import Mathlib.Data.Nat.Find
import Tachometer.Proofs.Measure.Meter

/-! # No pulse is lost and none is counted twice

A frequency is the number of pulses in a window divided by the window's length. Readings that come
too early move neither end of a window, and counters wrap around, so it takes the whole run to say
which pulses those are.

* `Meter.Disciplined` — a configuration after a sample is followed by a reset in time, and resets
  come only there.
* `Meter.Balanced` — how counters and baseline stand to the log.
* `Meter.balanced_after` — they stand so after every run, disciplined or not.
* `Meter.sample_conserves_pulses` — in a disciplined run every sample has the pulses of its own
  window, and every pulse is in one window at most. -/

namespace Tachometer

namespace Meter

variable {n : Nat}

/-! ## Discipline -/

/-- Whether the record at a place of a log has a property. -/
def has (records : List (Record n)) (p : Record n → Bool) (place : Nat) : Bool :=
  (records[place]?).any p

/-- A sample was taken before a place. -/
def SampledBefore (records : List (Record n)) (place : Nat) : Prop :=
  ∃ sample < place, has records Record.isSample sample

/-- The sampler started over between two places. -/
def ResetBetween (records : List (Record n)) (place update : Nat) : Prop :=
  ∃ reset < update, place < reset ∧ has records Record.isReset reset

instance (records : List (Record n)) (place : Nat) : Decidable (SampledBefore records place) :=
  inferInstanceAs (Decidable (∃ sample < place, has records Record.isSample sample))

instance (records : List (Record n)) (place update : Nat) :
    Decidable (ResetBetween records place update) :=
  inferInstanceAs (Decidable (∃ reset < update, place < reset ∧ has records Record.isReset reset))

/-- Every accepted configuration that comes after a sample is followed by a reset before the next
reading. -/
def ResetsInTime (records : List (Record n)) : Prop :=
  ∀ update < records.length, ∀ place < update, has records Record.isUpdate update →
    has records Record.isBinding place → SampledBefore records place →
    ResetBetween records place update

/-- Every reset comes between such a configuration and the next reading. -/
def ResetsOnlyThen (records : List (Record n)) : Prop :=
  ∀ reset < records.length, has records Record.isReset reset →
    ∃ place < reset, has records Record.isBinding place ∧ SampledBefore records place ∧
      ∀ update < reset, place < update → has records Record.isUpdate update = false

instance (records : List (Record n)) : Decidable (ResetsInTime records) := by
  unfold ResetsInTime
  infer_instance

instance (records : List (Record n)) : Decidable (ResetsOnlyThen records) := by
  unfold ResetsOnlyThen
  infer_instance

/-- Counters that were set to zero behind the sampler's back are followed by a reset, and resets
are for nothing else. -/
structure Disciplined (records : List (Record n)) : Prop where
  /-- No reading comes between a configuration and its reset. -/
  resetsInTime : ResetsInTime records
  /-- There is no other reset. -/
  resetsOnlyThen : ResetsOnlyThen records

/-! ## Places -/

/-- What a place of a log has does not depend on what follows the log:
`has (records ++ more) p place = has records p place`. -/
theorem has_append_of_lt {records : List (Record n)} {place : Nat} (h : place < records.length)
    (more : List (Record n)) (p : Record n → Bool) :
    has (records ++ more) p place = has records p place := by
  rw [has, has, List.getElem?_append_left h]

/-- One more record is at the place behind the log and at no other. -/
theorem has_concat (records : List (Record n)) (r : Record n) (p : Record n → Bool)
    (place : Nat) :
    has (records ++ [r]) p place = if place = records.length then p r else has records p place := by
  unfold has
  rw [List.getElem?_append]
  split
  · rw [if_neg (by omega)]
  · by_cases h : place = records.length
    · simp [h]
    · rw [if_neg h, List.getElem?_eq_none (by simp; omega), List.getElem?_eq_none (by omega)]

/-- Only places of the log have something: `has records p place = true` gives
`place < records.length`. -/
theorem lt_of_has {records : List (Record n)} {p : Record n → Bool} {place : Nat}
    (h : has records p place = true) : place < records.length := by
  by_contra hlt
  rw [has, List.getElem?_eq_none (Nat.not_lt.mp hlt)] at h
  exact absurd h (by simp)

/-- What was sampled before a place does not depend on what follows the log:
`SampledBefore (records ++ more) place ↔ SampledBefore records place`. -/
theorem sampledBefore_append {records : List (Record n)} {place : Nat}
    (h : place ≤ records.length) (more : List (Record n)) :
    SampledBefore (records ++ more) place ↔ SampledBefore records place := by
  apply exists_congr
  intro sample
  apply and_congr_right
  intro hs
  rw [has_append_of_lt (by omega)]

/-- What was reset between two places does not depend on what follows the log:
`ResetBetween (records ++ more) place update ↔ ResetBetween records place update`. -/
theorem resetBetween_append {records : List (Record n)} {update : Nat}
    (h : update ≤ records.length) (more : List (Record n)) (place : Nat) :
    ResetBetween (records ++ more) place update ↔ ResetBetween records place update := by
  apply exists_congr
  intro reset
  apply and_congr_right
  intro hr
  rw [has_append_of_lt (by omega)]

/-- The first records of a disciplined log are disciplined. -/
theorem Disciplined.of_append {records more : List (Record n)}
    (h : Disciplined (records ++ more)) : Disciplined records where
  resetsInTime := by
    intro update hu place hp hupdate hbind hsample
    have hlen : update < (records ++ more).length := by
      rw [List.length_append]
      omega
    rw [← resetBetween_append hu.le more]
    refine h.resetsInTime update hlen place hp ?_ ?_ ?_
    · rwa [has_append_of_lt hu]
    · rwa [has_append_of_lt (hp.trans hu)]
    · rwa [sampledBefore_append (hp.trans hu).le]
  resetsOnlyThen := by
    intro reset hr hreset
    have hlen : reset < (records ++ more).length := by
      rw [List.length_append]
      omega
    obtain ⟨place, hp, hbind, hsample, hquiet⟩ :=
      h.resetsOnlyThen reset hlen (by rwa [has_append_of_lt hr])
    refine ⟨place, hp, ?_, ?_, ?_⟩
    · rwa [has_append_of_lt (hp.trans hr)] at hbind
    · rwa [sampledBefore_append (hp.trans hr).le] at hsample
    · intro update hu hlt
      rw [← has_append_of_lt (hu.trans hr) more]
      exact hquiet update hu hlt

/-- When a disciplined log goes on with a reading, a reset followed each configuration that came
after a sample. -/
theorem Disciplined.exists_reset {records : List (Record n)} {now : Instant} {accepted : Bool}
    (h : Disciplined (records ++ [⟨.update now, accepted⟩])) {place : Nat}
    (hbind : has records Record.isBinding place = true) (hsample : SampledBefore records place) :
    ∃ reset, place < reset ∧ has records Record.isReset reset := by
  have hp := lt_of_has hbind
  have hreset : ResetBetween records place records.length := by
    rw [← resetBetween_append le_rfl [⟨.update now, accepted⟩]]
    refine h.resetsInTime records.length (by simp) place hp ?_ ?_ ?_
    · rw [has_concat, if_pos rfl]
      rfl
    · rwa [has_append_of_lt hp]
    · rwa [sampledBefore_append hp.le]
  obtain ⟨reset, -, hlt, hr⟩ := hreset
  exact ⟨reset, hlt, hr⟩

/-- Where two properties exclude each other, no record has both. -/
theorem has_eq_false_of_has {p q : Record n → Bool} (hpq : ∀ r, p r = true → q r = false)
    {records : List (Record n)} {place : Nat} (h : has records p place = true) :
    has records q place = false := by
  unfold has at h ⊢
  cases hr : records[place]? with
  | none => rfl
  | some r =>
    rw [hr, Option.any_some] at h
    exact hpq r h

/-- Where one property implies another, a record without the second lacks the first. -/
theorem has_eq_false_of_imp {p q : Record n → Bool} (hpq : ∀ r, p r = true → q r = true)
    {records : List (Record n)} {place : Nat} (h : has records q place = false) :
    has records p place = false := by
  unfold has at h ⊢
  cases hr : records[place]? with
  | none => rfl
  | some r =>
    rw [hr, Option.any_some] at h
    rw [Option.any_some, Bool.eq_false_iff]
    exact fun hp => Bool.eq_false_iff.mp h (hpq r hp)

/-- A configuration is not a sample: `r.isBinding = true` gives `r.isSample = false`. -/
theorem Record.isSample_of_isBinding (r : Record n) (h : r.isBinding = true) :
    r.isSample = false := by
  obtain ⟨event, accepted⟩ := r
  cases event <;> simp_all [isBinding, binds?, isSample]

/-- A sample is a reading: `r.isSample = true` gives `r.isUpdate = true`. -/
theorem Record.isUpdate_of_isSample (r : Record n) (h : r.isSample = true) :
    r.isUpdate = true := by
  obtain ⟨event, accepted⟩ := r
  cases event <;> simp_all [isUpdate, isSample]

/-- There is a sample in a longer log exactly if there is one in the shorter log, or the new record
is one. -/
theorem sampledBefore_concat (records : List (Record n)) (r : Record n) :
    SampledBefore (records ++ [r]) (records ++ [r]).length ↔
      SampledBefore records records.length ∨ r.isSample = true := by
  simp only [SampledBefore, has_concat, List.length_append, List.length_singleton]
  constructor
  · rintro ⟨place, hlt, h⟩
    by_cases hp : place = records.length
    · rw [if_pos hp] at h
      exact .inr h
    · rw [if_neg hp] at h
      exact .inl ⟨place, lt_of_has h, h⟩
  · rintro (⟨place, hlt, h⟩ | h)
    · exact ⟨place, by omega, by rwa [if_neg (by omega)]⟩
    · exact ⟨records.length, by omega, by rwa [if_pos rfl]⟩

/-- A record with a property came after the last sample. -/
def SinceSample (p : Record n → Bool) (records : List (Record n)) : Prop :=
  ∃ place, has records p place ∧ ∀ later, place ≤ later → has records Record.isSample later = false

/-- One more record changes what came after the last sample: a sample leaves nothing, any other
record may have the property itself. -/
theorem sinceSample_concat (p : Record n → Bool) (records : List (Record n)) (r : Record n) :
    SinceSample p (records ++ [r]) ↔
      r.isSample = false ∧ (SinceSample p records ∨ p r = true) := by
  simp only [SinceSample, has_concat]
  constructor
  · rintro ⟨place, h, hlater⟩
    by_cases hp : place = records.length
    · subst hp
      exact ⟨by simpa using hlater _ le_rfl, .inr (by simpa using h)⟩
    · rw [if_neg hp] at h
      have hlt := lt_of_has h
      refine ⟨by simpa using hlater records.length hlt.le, .inl ⟨place, h, ?_⟩⟩
      intro later hle
      by_cases hl : later < records.length
      · simpa [hl.ne] using hlater later hle
      · exact Bool.eq_false_iff.mpr fun hs => hl (lt_of_has hs)
  · rintro ⟨hr, ⟨place, h, hlater⟩ | h⟩
    · refine ⟨place, by rwa [if_neg (lt_of_has h).ne], ?_⟩
      intro later hle
      by_cases hl : later = records.length
      · rwa [if_pos hl]
      · rw [if_neg hl]
        exact hlater later hle
    · refine ⟨records.length, by rwa [if_pos rfl], ?_⟩
      intro later hle
      by_cases hl : later = records.length
      · rwa [if_pos hl]
      · rw [if_neg hl]
        exact Bool.eq_false_iff.mpr fun hs => hl (by have := lt_of_has hs; omega)

/-! ## Counters and baseline -/

/-- How the counter and the baseline of a channel stand to a log. Their difference is the number
of pulses in the open window unless the counters were set to zero after the last sample; then the
counter alone is, and the baseline is zero as soon as the sampler has started over. -/
structure Balanced (m : Meter n) (records : List (Record n)) (channel : Fin n) : Prop where
  /-- After a configuration the counter stands at the pulses. -/
  counts_eq : SinceSample Record.isBinding records ∨ ¬SampledBefore records records.length →
    m.counters.counts.get channel = UInt32.ofNat (pulsesIn records channel)
  /-- After a reset the baseline is zero. -/
  baseline_eq : SinceSample Record.isReset records ∨ ¬SampledBefore records records.length →
    m.sampler.baseline.get channel = 0
  /-- Without either the pulses are what the counter has gained on the baseline. -/
  difference_eq : ¬SinceSample Record.isBinding records → ¬SinceSample Record.isReset records →
    m.counters.counts.get channel - m.sampler.baseline.get channel =
      UInt32.ofNat (pulsesIn records channel)

namespace Balanced

variable {m : Meter n} {records : List (Record n)} {channel : Fin n}

/-- A record that touches neither end of the window adds as much to the counter as to the
pulses. -/
theorem advance (h : Balanced m records channel) {m' : Meter n} {r : Record n}
    (hs : r.isSample = false) (hb : r.isBinding = false) (hr : r.isReset = false) (gain : Nat)
    (hcount : m'.counters.counts.get channel = m.counters.counts.get channel + UInt32.ofNat gain)
    (hbase : m'.sampler.baseline.get channel = m.sampler.baseline.get channel)
    (hp : pulsesIn (records ++ [r]) channel = pulsesIn records channel + gain) :
    Balanced m' (records ++ [r]) channel := by
  constructor <;>
    simp only [sinceSample_concat, sampledBefore_concat, hs, hb, hr, hcount, hbase, hp,
      UInt32.ofNat_add, true_and, Bool.false_eq_true, or_false]
  · intro hc
    rw [h.counts_eq hc]
  · exact h.baseline_eq
  · intro hn hn'
    rw [← h.difference_eq hn hn']
    grind

/-- A record that means nothing to counters and sampler changes nothing. -/
theorem quiet (h : Balanced m records channel) {r : Record n} (hc : r.cuts = false)
    (hr : r.isReset = false) (he : ∀ pin, r ≠ .edge pin) :
    Balanced m (records ++ [r]) channel := by
  have hs : r.isSample = false ∧ r.isBinding = false := Bool.or_eq_false_iff.mp hc
  exact h.advance hs.1 hs.2 hr 0 (UInt32.add_zero _).symm rfl
    (pulsesIn_concat_of_not_edge hc he records channel)

/-- An edge on the channel's pin is a pulse of the channel. -/
theorem edge (h : Balanced m records channel) {pin : Nat}
    (hb : m.counters.bound? pin = some channel.val ↔
      (pins? records).any (fun pins => pins.get channel = pin) = true) :
    Balanced { m with counters := m.counters.edge pin } (records ++ [.edge pin]) channel := by
  have hp := pulsesIn_concat_edge records pin channel
  have hcount := m.counters.counts_edge pin channel
  simp only [← hb] at hp
  refine h.advance rfl rfl rfl _ ?_ rfl hp
  rw [hcount]
  split <;> rfl

/-- A configuration that is accepted sets the counter to zero and lets no earlier pulse count. -/
theorem configure (h : Balanced m records channel) (pins : Vector Nat n) :
    Balanced { m with counters := m.counters.listen pins }
      (records ++ [⟨.count (.configure pins), true⟩]) channel := by
  have hp := pulsesIn_concat_of_cuts (r := ⟨.count (.configure pins), true⟩) rfl records channel
  constructor <;>
    simp only [sinceSample_concat, sampledBefore_concat, hp, Record.isSample, Record.isBinding,
      Record.binds?, Record.isReset, Option.isSome_some, or_true, and_self, true_and, or_false,
      not_true_eq_false, Bool.false_eq_true, IsEmpty.forall_iff]
  · intro _
    exact Counters.counts_listen m.counters pins channel
  · exact h.baseline_eq

/-- A sample makes the counter the baseline and lets no earlier pulse count. -/
theorem sample (m : Meter n) (records : List (Record n)) (channel : Fin n) (window : Span)
    (now : Instant) :
    Balanced { m with sampler := m.sampler.close m.counters.counts window now }
      (records ++ [⟨.update now, true⟩]) channel := by
  have hp := pulsesIn_concat_of_cuts (r := ⟨.update now, true⟩) rfl records channel
  constructor <;>
    simp only [sinceSample_concat, sampledBefore_concat, hp, Record.isSample, false_and, or_true,
      or_self, not_true_eq_false, not_false_eq_true, Bool.true_eq_false, IsEmpty.forall_iff,
      forall_const]
  simp [Sampler.close]

/-- A reset sets the baseline to zero. -/
theorem reset (h : Balanced m records channel) (now : Instant) :
    Balanced { m with sampler := m.sampler.reset now } (records ++ [⟨.reset now, true⟩])
      channel := by
  have hp := pulsesIn_concat_of_not_edge (r := ⟨.reset now, true⟩) rfl
    (fun pin => by simp [Record.edge]) records channel
  constructor <;>
    simp only [sinceSample_concat, sampledBefore_concat, hp, Record.isSample, Record.isBinding,
      Record.binds?, Record.isReset, Option.isSome_none, or_true, and_self, true_and, or_false,
      not_true_eq_false, Bool.false_eq_true, IsEmpty.forall_iff, implies_true]
  · exact h.counts_eq
  · simp [Sampler.reset, Sampler.start, Vector.get]

end Balanced

/-- **Counters and baseline after a run.** They stand to the log as they should, whatever
happened. -/
theorem balanced_after (opened : Instant) (minLength : Span) (events : List (Event n))
    (channel : Fin n) :
    Balanced ((start opened minLength).after events) ((start opened minLength).log events)
      channel := by
  induction events using List.reverseRecOn with
  | nil =>
    have hs : ¬SampledBefore ([] : List (Record n)) 0 := by
      rintro ⟨place, hlt, -⟩
      omega
    constructor <;> simp [start, Counters.empty, Sampler.start, pulsesIn, pins?, Vector.get]
  | append_singleton events event ih =>
    have hbound := bound?_after_iff opened minLength events
    rw [after_concat, log_concat]
    generalize (start opened minLength : Meter n).after events = m at ih hbound ⊢
    generalize (start opened minLength : Meter n).log events = records at ih hbound ⊢
    cases event with
    | count event =>
      cases event with
      | configure pins =>
        have ha : m.accepts (.count (.configure pins)) = (pinFault? pins.toList).isNone := by
          rw [accepts, Counters.fault_configure]
        by_cases hf : pinFault? pins.toList = none
        · rw [ha, hf, respond, Counters.respond, Counters.configure_of_binds hf]
          exact ih.configure pins
        · rw [ha, Option.isNone_eq_false_iff.mpr (Option.isSome_iff_ne_none.mpr hf), respond,
            Counters.respond, Counters.configure_of_fault hf]
          exact ih.quiet rfl rfl (by simp [Record.edge])
      | edge pin => exact ih.edge (hbound pin channel)
    | update now =>
      cases h : m.sampler.window? now with
      | none =>
        rw [respond, accepts, read_eq, Sampler.update_of_window?_eq_none h]
        exact ih.quiet rfl rfl (by simp [Record.edge])
      | some window =>
        rw [respond, accepts, read_eq, Sampler.update_of_window?_eq_some h]
        exact Balanced.sample m records channel window now
    | reset now => exact ih.reset now

/-- **Pulses at a reading.** When a disciplined log goes on with a reading, what the counter has
gained on the baseline are the pulses in the window. -/
theorem Balanced.difference_of_disciplined {m : Meter n} {records : List (Record n)}
    {channel : Fin n} (h : Balanced m records channel) {now : Instant} {accepted : Bool}
    (hd : Disciplined (records ++ [⟨.update now, accepted⟩])) :
    m.counters.counts.get channel - m.sampler.baseline.get channel =
      UInt32.ofNat (pulsesIn records channel) := by
  by_cases hs : SampledBefore records records.length
  · by_cases hb : SinceSample Record.isBinding records
    · -- the configuration comes after every sample, so a reset followed it and none of them did
      obtain ⟨place, hbind, hlater⟩ := hb
      have hsample : SampledBefore records place := by
        obtain ⟨sample, -, hsample⟩ := hs
        by_cases hlt : sample < place
        · exact ⟨sample, hlt, hsample⟩
        · rw [hlater sample (Nat.not_lt.mp hlt)] at hsample
          exact absurd hsample (by simp)
      obtain ⟨reset, hlt, hreset⟩ := hd.exists_reset hbind hsample
      have hr : SinceSample Record.isReset records :=
        ⟨reset, hreset, fun later hle => hlater later (hlt.le.trans hle)⟩
      rw [h.counts_eq (.inl ⟨place, hbind, hlater⟩), h.baseline_eq (.inl hr), UInt32.sub_zero]
    · -- a reset would need a configuration after the last sample
      refine h.difference_eq hb fun hr => hb ?_
      obtain ⟨reset, hreset, hlater⟩ := hr
      obtain ⟨place, hp, hbind, -, hquiet⟩ :=
        hd.of_append.resetsOnlyThen reset (lt_of_has hreset) hreset
      refine ⟨place, hbind, ?_⟩
      intro later hle
      rcases Nat.eq_or_lt_of_le hle with rfl | hlt
      · exact has_eq_false_of_has Record.isSample_of_isBinding hbind
      · by_cases hl : later < reset
        · exact has_eq_false_of_imp Record.isUpdate_of_isSample (hquiet later hl hlt)
        · exact hlater later (Nat.not_lt.mp hl)
  · rw [h.counts_eq (.inr hs), h.baseline_eq (.inr hs), UInt32.sub_zero]

/-! ## Windows -/

/-- Between two places nothing is cut off exactly when no record there cuts. -/
theorem uncutFrom_take_iff (records : List (Record n)) (first last : Nat) :
    uncutFrom (records.take last) first = true ↔
      ∀ place, first ≤ place → place < last → has records Record.cuts place = false := by
  unfold uncutFrom
  rw [List.all_eq_true]
  constructor
  · intro hall place hf hl
    unfold has
    cases hr : records[place]? with
    | none => rfl
    | some r =>
      have hmem : r ∈ (records.take last).drop first := by
        rw [List.mem_iff_getElem?]
        exact ⟨place - first, by
          rw [List.getElem?_drop, Nat.add_sub_cancel' hf, List.getElem?_take_of_lt hl, hr]⟩
      simpa using hall r hmem
  · intro hall r hmem
    obtain ⟨index, hr⟩ := List.mem_iff_getElem?.mp hmem
    rw [List.getElem?_drop] at hr
    have hlt : first + index < last := by
      by_contra hge
      rw [List.getElem?_eq_none (by rw [List.length_take]; omega)] at hr
      exact absurd hr (by simp)
    rw [List.getElem?_take_of_lt hlt] at hr
    have := hall (first + index) (Nat.le_add_right _ _) hlt
    simpa [has, hr] using this

/-- **One window for each pulse.** If a sample is taken after a place and no configuration is
accepted before it, exactly one sample has the place in its window. -/
theorem existsUnique_closing {records : List (Record n)} {place sample : Nat}
    (hlt : place < sample) (hs : has records Record.isSample sample = true)
    (hb : ∀ between, place < between → between < sample →
      has records Record.isBinding between = false) :
    ∃! closing, place < closing ∧ has records Record.isSample closing = true ∧
      uncutFrom (records.take closing) (place + 1) = true := by
  have hex : ∃ closing, place < closing ∧ has records Record.isSample closing = true :=
    ⟨sample, hlt, hs⟩
  refine ⟨Nat.find hex, ⟨(Nat.find_spec hex).1, (Nat.find_spec hex).2, ?_⟩, ?_⟩
  · -- before the first sample after the place nothing cuts
    rw [uncutFrom_take_iff]
    intro between hbefore hafter
    have hsample : has records Record.isSample between = false := by
      have := Nat.find_min hex hafter
      simpa [Nat.lt_of_succ_le hbefore] using this
    have hbind := hb between hbefore (hafter.trans_le (Nat.find_min' hex ⟨hlt, hs⟩))
    unfold has at hsample hbind ⊢
    cases hr : records[between]? with
    | none => rfl
    | some r => simp_all [Record.cuts]
  · rintro closing ⟨hafter, hclosing, huncut⟩
    refine Nat.le_antisymm (Nat.not_lt.mp fun hgt => ?_) (Nat.find_min' hex ⟨hafter, hclosing⟩)
    -- a later sample has the earlier one between itself and the place
    have hcut := (uncutFrom_take_iff records _ _).mp huncut _ (Nat.find_spec hex).1 hgt
    have hfirst := (Nat.find_spec hex).2
    rw [has_eq_false_of_imp (q := Record.cuts) (fun r h => by simp [Record.cuts, h]) hcut]
      at hfirst
    exact absurd hfirst (by simp)

/-- **Frequencies of a sample.** In a disciplined run a sample has the pulses since the last cut
over the time since the window was opened. -/
theorem frequencies_of_sample {opened : Instant} {minLength : Span} {events : List (Event n)}
    {now : Instant} (hacc : ((start opened minLength).after events : Meter n).accepts (.update now))
    (hd : Disciplined ((start opened minLength : Meter n).log (events ++ [.update now]))) :
    ∃ window,
      now.since? (Meter.opened opened ((start opened minLength : Meter n).log events)) =
        some window ∧
      ∀ channel : Fin n,
        ((start opened minLength).after (events ++ [.update now])).sampler.frequencies.get channel =
          .ofNat (pulsesIn ((start opened minLength).log events) channel % UInt32.size) /
            window.seconds := by
  have hbal := balanced_after (n := n) opened minLength events
  rw [log_concat] at hd
  rw [after_concat, ← opened_after]
  generalize (start opened minLength : Meter n).after events = m at hacc hd hbal ⊢
  cases hw : m.sampler.window? now with
  | none =>
    rw [accepts, read_eq, Sampler.update_of_window?_eq_none hw] at hacc
    exact absurd hacc (by simp)
  | some window =>
    refine ⟨window, Sampler.since?_of_window?_eq_some hw, ?_⟩
    intro channel
    rw [respond, read_eq, Sampler.update_of_window?_eq_some hw]
    have hdiff := (hbal channel).difference_of_disciplined hd
    refine (Vector.getElem_zipWith channel.isLt).trans ?_
    show .ofNat (m.counters.counts.get channel - m.sampler.baseline.get channel).toNat /
      window.seconds = _
    rw [hdiff, UInt32.toNat_ofNat']

/-- **Conservation of pulses.** In a disciplined run, whatever its readings, edges and
configurations, the frequency of a channel at each sample is the number of edges on the channel's
pin since the last sample or configuration, modulo the range of a counter, over the time since the
last sample or reset. Every pulse that a sample follows before the next configuration is in the
window of exactly one sample. -/
theorem sample_conserves_pulses (opened : Instant) (minLength : Span) (events : List (Event n))
    (hd : Disciplined ((start opened minLength : Meter n).log events)) :
    (∀ (place : Nat) (now : Instant),
      ((start opened minLength).log events)[place]? = some ⟨.update now, true⟩ →
      ∃ window,
        now.since?
            (Meter.opened opened (((start opened minLength : Meter n).log events).take place)) =
          some window ∧
        ∀ channel : Fin n,
          ((start opened minLength).after (events.take (place + 1))).sampler.frequencies.get
              channel =
            .ofNat (pulsesIn (((start opened minLength).log events).take place) channel %
              UInt32.size) / window.seconds) ∧
    ∀ place sample : Nat, place < sample →
      has ((start opened minLength : Meter n).log events) Record.isSample sample →
      (∀ between, place < between → between < sample →
        has ((start opened minLength : Meter n).log events) Record.isBinding between = false) →
      ∃! closing, place < closing ∧
        has ((start opened minLength : Meter n).log events) Record.isSample closing ∧
        uncutFrom (((start opened minLength : Meter n).log events).take closing) (place + 1) := by
  refine ⟨?_, fun place sample hlt hs hb => existsUnique_closing hlt hs hb⟩
  intro place now hrecord
  rw [getElem?_log, Option.map_eq_some_iff] at hrecord
  obtain ⟨event, hevent, heq⟩ := hrecord
  obtain ⟨rfl, hacc⟩ := Record.mk.inj heq
  have hsplit : events.take (place + 1) = events.take place ++ [.update now] := by
    rw [List.take_add_one, hevent, Option.toList_some]
  rw [take_log, hsplit]
  refine frequencies_of_sample hacc ?_
  rw [← List.take_append_drop (place + 1) events, log_append, hsplit] at hd
  exact hd.of_append

/-- A run with an early reading, a new configuration, its reset and a reading from a clock that
went backwards. -/
def reconfiguredRun : List (Event 1) :=
  [.count (.configure #v[4]), .count (.edge 4), .count (.edge 4), .count (.edge 9),
    .update ⟨100000000⟩, .count (.edge 4), .update ⟨120000000⟩, .count (.configure #v[7]),
    .count (.edge 7), .reset ⟨150000000⟩, .count (.edge 7), .update ⟨140000000⟩,
    .update ⟨300000000⟩]

/-- The two edges on the new pin are the pulses of the last sample. -/
theorem sample_conserves_pulses_reconfigured :
    Disciplined ((start ⟨0⟩ Sampler.usualLength).log reconfiguredRun) ∧
      ((start ⟨0⟩ Sampler.usualLength).after (reconfiguredRun.take 13)).sampler.frequencies.get 0 =
        .ofNat 2 / Span.seconds ⟨150000000⟩ := by
  have hd : Disciplined ((start ⟨0⟩ Sampler.usualLength).log reconfiguredRun) :=
    ⟨by decide +kernel, by decide +kernel⟩
  obtain ⟨window, hw, hf⟩ :=
    (sample_conserves_pulses ⟨0⟩ Sampler.usualLength reconfiguredRun hd).1 12 ⟨300000000⟩
      (by decide +kernel)
  have hwindow : window = ⟨150000000⟩ := by
    refine Option.some.inj (hw.symm.trans ?_)
    decide +kernel
  have hpulses :
      pulsesIn (((start ⟨0⟩ Sampler.usualLength).log reconfiguredRun).take 12) 0 = 2 := by
    decide +kernel
  refine ⟨hd, ?_⟩
  rw [hf 0, hwindow, hpulses, Nat.mod_eq_of_lt (by decide)]

end Meter

end Tachometer
