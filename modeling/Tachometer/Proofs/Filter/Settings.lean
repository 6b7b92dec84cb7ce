import Tachometer.Filter.Kind
import Tachometer.Proofs.Clock.Microseconds
import Tachometer.Proofs.Decimal.Numeral
import Tachometer.Proofs.Filter.PeakHold

/-! # Which settings texts are accepted

A settings text is accepted exactly when its first two fields are literals of finite numbers and
the first of these is not too large for the smaller format. Nothing else about the text matters.

* `Settings.Pieces`, `Settings.filter_pieces` — the fields are the pieces between commas without
  the empty ones.
* `Settings.Stated` — a text that states a rate and a delay.
* `Settings.ofText?_eq_some_iff` — which settings a text gives.
* `Settings.read_iff` — which peak hold a text gives, and which fault otherwise. -/

namespace Tachometer.PeakHold.Settings

/-! ## Fields -/

/-- The pieces of a text between its commas. -/
structure Pieces (text : List Char) (pieces : List (List Char)) : Prop where
  /-- With commas between them the pieces are the text. -/
  join_eq : [','].intercalate pieces = text
  /-- No piece has a comma in it. -/
  notMem : ∀ piece ∈ pieces, ',' ∉ piece

/-- The pieces that are not empty. -/
def filled (pieces : List (List Char)) : List (List Char) :=
  pieces.filter fun piece => !piece.isEmpty

/-- A text taken apart at its commas has no comma left in its pieces:
`∀ piece ∈ text.splitOn ',', ',' ∉ piece`. -/
theorem notMem_of_mem_splitOn (text : List Char) :
    ∀ piece ∈ text.splitOn ',', ',' ∉ piece := by
  induction text with
  | nil => simp
  | cons c text ih =>
    intro piece hpiece
    rw [List.splitOn_cons_eq_if_modifyHead] at hpiece
    split at hpiece
    case isTrue =>
      rcases List.mem_cons.mp hpiece with rfl | hpiece
      · exact List.not_mem_nil
      · exact ih piece hpiece
    case isFalse hne =>
      -- the character goes to the first piece of the rest
      obtain ⟨first, rest, hsplit⟩ := List.exists_cons_of_ne_nil (List.splitOn_ne_nil ',' text)
      rw [hsplit] at hpiece ih
      rcases List.mem_cons.mp hpiece with rfl | hpiece
      · rintro hmem
        rcases List.mem_cons.mp hmem with rfl | hmem
        · exact hne (beq_self_eq_true _)
        · exact ih first List.mem_cons_self hmem
      · exact ih piece (List.mem_cons_of_mem _ hpiece)

/-- The pieces between the commas put together make the text: `Pieces text (text.splitOn ',')`. -/
theorem pieces_splitOn (text : List Char) : Pieces text (text.splitOn ',') :=
  ⟨List.intercalate_splitOn ',', notMem_of_mem_splitOn text⟩

/-- **Fields.** However a text is taken apart at its commas, its fields are the pieces that are not
empty: `filled pieces = fields text`. -/
theorem filled_pieces {text : List Char} {pieces : List (List Char)} (h : Pieces text pieces) :
    filled pieces = fields text := by
  by_cases hnil : pieces = []
  · have htext := h.join_eq
    rw [hnil] at htext
    rw [hnil, ← htext]
    rfl
  · have hsplit := List.splitOn_intercalate ',' h.notMem hnil
    rw [h.join_eq] at hsplit
    rw [filled, fields, hsplit]

/-! ## Settings -/

/-- **Numbers of fields.** A field gives a number exactly when it is the literal of a finite one. -/
theorem number?_eq_some_iff {field : List Char} {x : Binary64} :
    number? field = some x ↔ Numeral.Literal field x ∧ x.isFinite = true := by
  rw [number?, Option.filter_eq_some_iff, Option.map_eq_some_iff]
  constructor
  · rintro ⟨hread, hfin⟩
    exact ⟨(Numeral.literal_iff_of_isFinite hfin).mpr hread, hfin⟩
  · rintro ⟨hliteral, hfin⟩
    exact ⟨(Numeral.literal_iff_of_isFinite hfin).mp hliteral, hfin⟩

/-- A text that states a rate and a delay: its first two pieces that are not empty are literals of
these numbers, which are finite, and the rate is finite in the smaller format too. -/
structure Stated (text : List Char) (rate delay : Binary64) : Prop where
  /-- The first two pieces that are not empty. -/
  pieces : ∃ pieces first second rest, Pieces text pieces ∧
    filled pieces = first :: second :: rest ∧ Numeral.Literal first rate ∧
    Numeral.Literal second delay
  /-- The rate is finite. -/
  isFinite_rate : rate.isFinite = true
  /-- The delay is finite. -/
  isFinite_delay : delay.isFinite = true
  /-- The rate is finite in the smaller format. -/
  isFinite_narrow : (rate.convert : Binary32).isFinite = true

/-- **Accepted texts.** A text gives the settings with the rate and delay that it states, and none
if it states none. -/
theorem ofText?_eq_some_iff {text : String} {s : Settings} :
    ofText? text = some s ↔
      ∃ rate delay, Stated text.toList rate delay ∧ s = ⟨rate.convert, .ofSeconds delay⟩ := by
  rw [ofText?]
  constructor
  · intro h
    match hfields : fields text.toList, h with
    | [], h | [_], h => exact absurd h (by simp)
    | first :: second :: rest, h =>
      rw [ofFields?] at h
      split at h
      case h_2 => exact absurd h (by simp)
      case h_1 rate delay hrate hdelay =>
        obtain ⟨hfirst, hratefin⟩ := number?_eq_some_iff.mp hrate
        obtain ⟨hsecond, hdelayfin⟩ := number?_eq_some_iff.mp hdelay
        rw [ofNumbers?] at h
        split at h
        case isFalse => exact absurd h (by simp)
        case isTrue hnarrow =>
          -- the fields come from one way to take the text apart
          have hpieces := pieces_splitOn text.toList
          exact ⟨rate, delay, ⟨⟨_, first, second, rest, hpieces,
            (filled_pieces hpieces).trans hfields, hfirst, hsecond⟩, hratefin, hdelayfin, hnarrow⟩,
            (Option.some.inj h).symm⟩
  · rintro ⟨rate, delay, hstated, rfl⟩
    obtain ⟨pieces, first, second, rest, hpieces, hfilled, hfirst, hsecond⟩ := hstated.pieces
    rw [← filled_pieces hpieces, hfilled, ofFields?,
      number?_eq_some_iff.mpr ⟨hfirst, hstated.isFinite_rate⟩,
      number?_eq_some_iff.mpr ⟨hsecond, hstated.isFinite_delay⟩]
    exact if_pos hstated.isFinite_narrow

/-- Settings that are accepted have a finite rate: `s.rate.isFinite = true`. -/
theorem isFinite_rate {text : String} {s : Settings} (h : ofText? text = some s) :
    s.rate.isFinite = true := by
  obtain ⟨rate, delay, hstated, rfl⟩ := ofText?_eq_some_iff.mp h
  exact hstated.isFinite_narrow

/-- Two texts with the same first two pieces that are not empty. -/
def StartAlike (text text' : List Char) : Prop :=
  ∃ pieces pieces' first second rest rest', Pieces text pieces ∧ Pieces text' pieces' ∧
    filled pieces = first :: second :: rest ∧ filled pieces' = first :: second :: rest'

/-- Only the first two pieces that are not empty matter: `ofText? text' = ofText? text`. -/
theorem ofText?_congr {text text' : String} (h : StartAlike text.toList text'.toList) :
    ofText? text' = ofText? text := by
  obtain ⟨pieces, pieces', first, second, rest, rest', hpieces, hpieces', hfilled, hfilled'⟩ := h
  rw [ofText?, ofText?, ← filled_pieces hpieces, ← filled_pieces hpieces', hfilled, hfilled',
    ofFields?_cons_cons, ofFields?_cons_cons first second rest]

/-! ## Peak holds from texts -/

/-- The ticks of a stated delay: none if it is not positive, otherwise its microseconds, to the
nearest by adding a half and cutting off, as many as fit 64 bits and then as fit a span. -/
def delayTicks (delay : Binary64) : Nat :=
  100 * if delay ≤ 0 then 0
    else min ((delay * .ofNat 1000000 + .round false (1 / 2)).truncate (2 ^ 64 - 1))
      ((2 ^ 64 - 1) / 100)

/-- A peak hold that is as a text wants it, at the time it was read. -/
structure Fresh (rate delay : Binary64) (now : Instant) (p : PeakHold) : Prop where
  /-- It holds zero. -/
  peak_eq : p.peak = 0
  /-- It holds it as if since the clock started. -/
  phase_eq : p.phase = .holding ⟨0⟩
  /-- It was called last when it was made. -/
  lastCall_eq : p.lastCall = now
  /-- Its rate is the stated one in the smaller format. -/
  rate_eq : p.settings.rate = rate.convert
  /-- Its delay is the stated one, to the microsecond. -/
  ticks_delay : p.settings.delay.ticks.toNat = delayTicks delay

/-- A peak hold is fresh exactly if it is started with these settings:
`Fresh rate delay now p ↔ p = .start ⟨rate.convert, .ofSeconds delay⟩ now`. -/
theorem fresh_iff {rate delay : Binary64} {now : Instant} {p : PeakHold} :
    Fresh rate delay now p ↔ p = .start ⟨rate.convert, .ofSeconds delay⟩ now := by
  have hticks : (Span.ofSeconds delay).ticks.toNat = delayTicks delay := by
    rw [Span.toNat_ofSeconds, Span.nearestMicroseconds_eq]
    rfl
  constructor
  · rintro ⟨hpeak, hphase, hcall, hrate, hdelay⟩
    obtain ⟨⟨rate', delay'⟩, peak, phase, lastCall⟩ := p
    obtain rfl : delay' = Span.ofSeconds delay := Span.toNat_inj (hdelay.trans hticks.symm)
    subst hpeak hphase hcall hrate
    rfl
  · rintro rfl
    exact ⟨rfl, rfl, rfl, rfl, hticks⟩

/-- A peak hold is read from the settings of its text, or refused if the text gives none. -/
theorem read_peakHold (text : String) (now : Instant) :
    Kind.peakHold.read (some text) now =
      match ofText? text with
      | some settings => .ok (.start settings now)
      | none => .error .malformedFilterSettings := rfl

/-- A text is read as the fresh peak hold with the rate and delay that it states. -/
theorem read_eq_ok_iff {text : String} {now : Instant} {p : PeakHold} :
    Kind.peakHold.read (some text) now = .ok p ↔
      ∃ rate delay, Stated text.toList rate delay ∧ Fresh rate delay now p := by
  rw [read_peakHold]
  constructor
  · intro h
    split at h
    case h_2 => exact absurd h (by simp)
    case h_1 settings hsettings =>
      obtain ⟨rate, delay, hstated, rfl⟩ := ofText?_eq_some_iff.mp hsettings
      exact ⟨rate, delay, hstated, fresh_iff.mpr (Except.ok.inj h).symm⟩
  · rintro ⟨rate, delay, hstated, hfresh⟩
    rw [ofText?_eq_some_iff.mpr ⟨rate, delay, hstated, rfl⟩, fresh_iff.mp hfresh]

/-- **Reading settings.** A text is accepted exactly when it states a rate and a delay, and gives
the fresh peak hold with these; every other text is malformed. Texts with the same first two
pieces that are not empty are read alike. -/
theorem read_iff (text : String) (now : Instant) :
    (∀ p, Kind.peakHold.read (some text) now = .ok p ↔
        ∃ rate delay, Stated text.toList rate delay ∧ Fresh rate delay now p) ∧
      ((∃ p, Kind.peakHold.read (some text) now = .ok p) ∨
        Kind.peakHold.read (some text) now = .error .malformedFilterSettings) ∧
      ∀ text' : String, StartAlike text.toList text'.toList →
        Kind.peakHold.read (some text') now = Kind.peakHold.read (some text) now := by
  refine ⟨fun p => read_eq_ok_iff, ?_, fun text' h => ?_⟩
  · rw [read_peakHold]
    cases ofText? text with
    | none => exact .inr rfl
    | some settings => exact .inl ⟨_, rfl⟩
  · rw [read_peakHold, read_peakHold, ofText?_congr h]

/-- Empty fields and what follows the second field do not matter: both texts give a peak hold that
drops by three per second after a quarter of a second. -/
theorem read_extraFields :
    StartAlike ",3,,0.25,99".toList "3,0.25".toList ∧
      Kind.peakHold.read (some ",3,,0.25,99") ⟨7⟩ =
        .ok (.start ⟨.round false 3, ⟨25000000⟩⟩ ⟨7⟩) ∧
      Kind.peakHold.read (some "3,0.25") ⟨7⟩ = Kind.peakHold.read (some ",3,,0.25,99") ⟨7⟩ := by
  have halike : StartAlike ",3,,0.25,99".toList "3,0.25".toList :=
    ⟨[[], ['3'], [], "0.25".toList, "99".toList], [['3'], "0.25".toList], ['3'], "0.25".toList,
      ["99".toList], [], ⟨by decide, by decide⟩, ⟨by decide, by decide⟩, rfl, rfl⟩
  refine ⟨halike, ?_, (read_iff ",3,,0.25,99" ⟨7⟩).2.2 "3,0.25" halike⟩
  decide +kernel

end Tachometer.PeakHold.Settings
