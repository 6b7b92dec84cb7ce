import Tachometer.Proofs.Clock.Rereading
import Tachometer.Proofs.Decimal.Millionths
import Tachometer.Proofs.Filter.Settings

/-! # Hold delays are kept to the microsecond

The delay of a settings text goes through three roundings: the numeral to the nearest number, its
product with a million, and the sum with a half that is cut off. Below `2 ^ 51` microseconds
(about 71 years) the first of these is less than a quarter of a microsecond off, and quarters are
exact in the other two, so a delay that is written in whole microseconds is the one that is kept.

* `Settings.number?_of_written` — the number of seconds that is read for a count.
* `Settings.ofText?_of_written` — the settings of a text whose delay is a count.
* `Settings.KeepsDelay` — what is read of a text whose delay is a count of microseconds.
* `Settings.keepsDelay` — for every count below `2 ^ 51` and every way to write it. -/

namespace Tachometer.PeakHold.Settings

open Format

/-- A field with a count of microseconds gives the nearest number of seconds, if that is finite:
`number? field = some (.finite false ⟨_, h⟩)`. -/
theorem number?_of_written {field : List Char} {count : Nat}
    (hwritten : Millionths.Written field count)
    (h : binary64.nearestRank (count / 1000000) < binary64.infinityRank) :
    number? field = some (.finite false ⟨_, h⟩) := by
  obtain ⟨x, hspells, hsign, hmagnitude⟩ := hwritten.exists_spells
  have hnearest : x.nearest = .finite false ⟨_, h⟩ := by
    rw [Numeral.nearest_eq_ofRank, hsign, hmagnitude, Binary.ofRank_of_lt h]
  rw [number?, hspells.ofChars?, Option.map_some, hnearest]
  rfl

/-- A text with a count of microseconds in its second field gives that count as the delay, whatever
finite rate is in the first. -/
theorem ofText?_of_written {text : String} {pieces rest : List (List Char)}
    {first second : List Char} {count : Nat} (hpieces : Pieces text.toList pieces)
    (hfilled : filled pieces = first :: second :: rest)
    (hwritten : Millionths.Written second count) (h : count < 2 ^ 51) {s : Settings} :
    ofText? text = some s ↔
      ∃ rate, Numeral.Literal first rate ∧ rate.isFinite = true ∧
        (rate.convert : Binary32).isFinite = true ∧
        s = ⟨rate.convert, .ofMicroseconds (.ofNat count)⟩ := by
  have hrank := Span.nearestRank_secondsOf_lt (h.le.trans (by decide))
  have hmicros : Span.nearestMicroseconds (.finite false ⟨_, hrank⟩) = count :=
    (Span.nearestMicroseconds_eq_microsecondsOf rfl rfl).trans (Span.microsecondsOf_secondsOf_eq h)
  have hdelay : Span.ofSeconds (.finite false ⟨_, hrank⟩) = .ofMicroseconds (.ofNat count) := by
    rw [Span.ofSeconds, hmicros]
  rw [ofText?, ← filled_pieces hpieces, hfilled, ofFields?, number?_of_written hwritten hrank]
  constructor
  · intro hread
    cases hrate : number? first with
    | none =>
      rw [hrate] at hread
      exact absurd hread (by simp)
    | some rate =>
      rw [hrate] at hread
      obtain ⟨hliteral, hfin⟩ := number?_eq_some_iff.mp hrate
      obtain ⟨hnarrow, hsettings⟩ := Option.ite_none_right_eq_some.mp hread
      exact ⟨rate, hliteral, hfin, hnarrow, by rw [← Option.some.inj hsettings, hdelay]⟩
  · rintro ⟨rate, hliteral, hfin, hnarrow, rfl⟩
    rw [number?_eq_some_iff.mpr ⟨hliteral, hfin⟩, ← hdelay]
    exact if_pos hnarrow

/-- What is read of a text with a rate and a count of microseconds. -/
structure KeepsDelay (text : String) (rate : List Char) (count : Nat) : Prop where
  /-- The delay is no reason to refuse it: any finite rate makes a peak hold, with a delay of the
  count of microseconds. -/
  accepted : ∀ now x, Numeral.Literal rate x → x.isFinite = true →
    (x.convert : Binary32).isFinite = true →
    Kind.peakHold.read (some text) now =
      .ok (.start ⟨x.convert, .ofMicroseconds (.ofNat count)⟩ now)
  /-- Every peak hold that is read has a delay of exactly the count of microseconds. -/
  microseconds_eq : ∀ now p, Kind.peakHold.read (some text) now = .ok p →
    p.settings.delay.microseconds.toNat = count
  /-- That is a hundred ticks for each. -/
  ticks_eq : ∀ now p, Kind.peakHold.read (some text) now = .ok p →
    p.settings.delay.ticks.toNat = 100 * count

/-- **Kept to the microsecond.** Whichever way a count of microseconds below `2 ^ 51` is written as
seconds in the second field of a text, the delay that is read is that count. -/
theorem keepsDelay {text : String} {pieces rest : List (List Char)} {first second : List Char}
    {count : Nat} (hpieces : Pieces text.toList pieces)
    (hfilled : filled pieces = first :: second :: rest)
    (hwritten : Millionths.Written second count) (h : count < 2 ^ 51) :
    KeepsDelay text first count := by
  have hticks : ∀ now p, Kind.peakHold.read (some text) now = .ok p →
      p.settings.delay.ticks.toNat = 100 * count := by
    intro now p hread
    rw [read_peakHold] at hread
    split at hread
    case h_2 => exact absurd hread (by simp)
    case h_1 s hsettings =>
      obtain ⟨x, -, -, -, rfl⟩ := (ofText?_of_written hpieces hfilled hwritten h).mp hsettings
      rw [← Except.ok.inj hread]
      exact Span.toNat_ofMicroseconds (by unfold Span.maxMicroseconds; omega)
  refine ⟨?_, fun now p hread => ?_, hticks⟩
  · intro now x hliteral hfin hnarrow
    rw [read_peakHold, (ofText?_of_written hpieces hfilled hwritten h).mpr
      ⟨x, hliteral, hfin, hnarrow, rfl⟩]
  · rw [Span.toNat_microseconds, hticks now p hread, Nat.mul_div_cancel_left _ (by decide)]

/-- The longest delay that is kept for sure, written with zeros in front of it and empty fields
around it. -/
theorem keepsDelay_longest :
    KeepsDelay ",1e3,,0002251799813.685247,0" "1e3".toList 2251799813685247 ∧
      Kind.peakHold.read (some ",1e3,,0002251799813.685247,0") ⟨7⟩ =
        .ok (.start ⟨.round false 1000, ⟨225179981368524700⟩⟩ ⟨7⟩) := by
  have hpieces : Pieces ",1e3,,0002251799813.685247,0".toList
      [[], "1e3".toList, [], "0002251799813.685247".toList, ['0']] := ⟨by decide, by decide⟩
  have hwritten : Millionths.Written "0002251799813.685247".toList 2251799813685247 :=
    @Millionths.Written.pointed "0002251799813".toList "685247".toList
      (List.all_eq_true.mp (by decide)) (by decide) (List.all_eq_true.mp (by decide)) (by decide)
      (by decide)
  exact ⟨keepsDelay hpieces rfl hwritten (by decide), by decide +kernel⟩

end Tachometer.PeakHold.Settings
