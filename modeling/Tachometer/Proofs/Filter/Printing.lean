import Mathlib.Data.String.Basic
import Tachometer.Proofs.Clock.Rereading
import Tachometer.Proofs.Decimal.SixPlaces
import Tachometer.Proofs.Filter.Settings

/-! # Settings that were printed

The settings of every peak hold that was read from a text are printed, and what was printed is read
again.

* `Settings.exists_text?` — settings with a finite rate are printed, in few enough bytes.
* `Settings.reread` — the settings that are read from what was printed.
* `Settings.ofText?_text?` — they are.
* `Settings.rereads_rate` — the rate comes back to the last place, and stays from then on.
* `Settings.rereads_delay` — how much longer the delay comes back. -/

namespace Tachometer.PeakHold.Settings

open Format

/-! ## The printed text -/

/-- The characters of settings with a finite rate. -/
theorem chars_eq (negative : Bool) (rank : Fin binary32.infinityRank) (delay : Span) :
    chars ⟨.finite negative rank, delay⟩ =
      Millionths.signed negative
          (Millionths.render (Millionths.nearest (binary32.magnitude rank))) ++
        ',' :: Millionths.signed false (Millionths.render delay.microseconds.toNat) := rfl

/-- A sign takes one character at most:
`(Millionths.signed negative text).length ≤ text.length + 1`. -/
theorem length_signed_le (negative : Bool) (text : List Char) :
    (Millionths.signed negative text).length ≤ text.length + 1 := by
  cases negative <;> simp

/-- A finite rate has at most 39 digits before the point. -/
theorem nearest_div_lt (rank : Fin binary32.infinityRank) :
    Millionths.nearest (binary32.magnitude rank) / Millionths.whole < 10 ^ 39 := by
  have hend : binary32.magnitude rank ≤ 2 ^ 128 := (binary32.lt_infinityRank_iff.mp rank.isLt).le
  have hdecimal := SixPlaces.decimal_le_two_zpow (binary32.magnitude_nonneg rank) hend
  rw [zpow_natCast, div_le_iff₀ (by norm_num)] at hdecimal
  have hle : Millionths.nearest (binary32.magnitude rank) ≤ 2 ^ 128 * 1000000 := by
    exact_mod_cast hdecimal
  rw [Nat.div_lt_iff_lt_mul (by decide)]
  exact hle.trans_lt (by decide)

/-- A delay has at most 12 digits before the point:
`delay.microseconds.toNat / Millionths.whole < 10 ^ 12`. -/
theorem microseconds_div_lt (delay : Span) :
    delay.microseconds.toNat / Millionths.whole < 10 ^ 12 := by
  have hlt := delay.ticks.toNat_lt
  rw [Span.toNat_microseconds, Nat.div_div_eq_div_mul, Nat.div_lt_iff_lt_mul (by decide)]
  exact hlt.trans (by decide)

/-- No settings with a finite rate need more than 67 characters:
`(chars ⟨.finite negative rank, delay⟩).length ≤ 67`. -/
theorem length_chars_le (negative : Bool) (rank : Fin binary32.infinityRank) (delay : Span) :
    (chars ⟨.finite negative rank, delay⟩).length ≤ 67 := by
  have hrate := Millionths.length_render_le (by decide) (nearest_div_lt rank)
  have hdelay := Millionths.length_render_le (by decide) (microseconds_div_lt delay)
  have hsigned := length_signed_le negative
    (Millionths.render (Millionths.nearest (binary32.magnitude rank)))
  rw [chars_eq, List.length_append, List.length_cons, Millionths.signed_false]
  omega

/-- Plain characters take one byte each: `String.utf8Len text = text.length`. -/
theorem utf8Len_eq_length {text : List Char} (h : ∀ c ∈ text, c.utf8Size = 1) :
    String.utf8Len text = text.length := by
  induction text with
  | nil => rfl
  | cons c text ih =>
    rw [String.utf8Len_cons, h c List.mem_cons_self,
      ih fun d hd => h d (List.mem_cons_of_mem _ hd), List.length_cons]

/-- A character of a decimal takes one byte: `c.utf8Size = 1`. -/
theorem utf8Size_of_isPlain {c : Char} (h : Millionths.IsPlain c) : c.utf8Size = 1 := by
  rcases h with hdigit | rfl | rfl
  · rw [Char.utf8Size_eq_one_iff]
    simp only [Char.isDigit, Bool.and_eq_true, decide_eq_true_eq] at hdigit
    exact UInt32.le_trans hdigit.2 (by decide)
  · rfl
  · rfl

/-- Every character that is printed takes one byte: `c.utf8Size = 1`. -/
theorem utf8Size_of_mem_chars {negative : Bool} {rank : Fin binary32.infinityRank} {delay : Span}
    {c : Char} (h : c ∈ chars ⟨.finite negative rank, delay⟩) : c.utf8Size = 1 := by
  rw [chars_eq] at h
  rcases List.mem_append.mp h with hrate | hrest
  · exact utf8Size_of_isPlain (Millionths.isPlain_of_mem hrate)
  · rcases List.mem_cons.mp hrest with rfl | hdelay
    · rfl
    · exact utf8Size_of_isPlain (Millionths.isPlain_of_mem hdelay)

/-- **Printing.** Settings with a finite rate are printed, in at most as many bytes as there are. -/
theorem exists_text? {s : Settings} (h : s.rate.isFinite = true) :
    ∃ text, s.text? = some text ∧ text.toList = s.chars ∧ text.utf8ByteSize ≤ maxLength := by
  match s, h with
  | ⟨.finite negative rank, delay⟩, _ =>
    have hlength := length_chars_le negative rank delay
    have hle : (chars ⟨.finite negative rank, delay⟩).length ≤ maxLength := by
      unfold maxLength
      omega
    refine ⟨_, if_pos hle, String.toList_ofList, ?_⟩
    rw [String.utf8ByteSize_ofList, utf8Len_eq_length fun c hc => utf8Size_of_mem_chars hc]
    exact hle

/-! ## Reading it again -/

/-- The settings that are read from the text of settings. -/
def reread (s : Settings) : Settings where
  rate := .ofRank s.rate.negative (binary32.nearestRank (SixPlaces.wide |s.rate.toRat|))
  delay := .ofSeconds (Millionths.numeral false s.delay.microseconds.toNat).nearest

/-- The number nearest to a count of millionths has the sign of the count and the rank nearest to
it, if that is finite. -/
theorem nearest_numeral {negative : Bool} {count : Nat}
    (h : binary64.nearestRank (count / 1000000) < binary64.infinityRank) :
    (Millionths.numeral negative count).nearest = .finite negative ⟨_, h⟩ := by
  rw [Numeral.nearest_eq_ofRank, Millionths.negative_numeral, Millionths.magnitude_numeral,
    Binary.ofRank_of_lt h]

/-- A decimal gives a number unless it is too large. -/
theorem number?_signed_render (negative : Bool) {count : Nat}
    (h : binary64.nearestRank (count / 1000000) < binary64.infinityRank) :
    number? (Millionths.signed negative (Millionths.render count)) =
      some (.finite negative ⟨_, h⟩) := by
  have hfin : (.finite negative ⟨_, h⟩ : Binary64).isFinite = true := rfl
  refine number?_eq_some_iff.mpr ⟨(Numeral.literal_iff_of_isFinite hfin).mpr ?_, hfin⟩
  exact ⟨_, (Millionths.spells_signed_render negative count).ofChars?, nearest_numeral h⟩

/-- Two fields without a comma, of which none is empty:
`fields (first ++ ',' :: second) = [first, second]`. -/
theorem fields_append {first second : List Char} (hfirst : ',' ∉ first) (hsecond : ',' ∉ second)
    (hfirstNe : first ≠ []) (hsecondNe : second ≠ []) :
    fields (first ++ ',' :: second) = [first, second] := by
  have hpieces : Pieces (first ++ ',' :: second) [first, second] := by
    refine ⟨by simp, ?_⟩
    intro piece hpiece
    rcases List.mem_cons.mp hpiece with rfl | hpiece
    · exact hfirst
    · rwa [List.mem_singleton.mp hpiece]
  rw [← filled_pieces hpieces]
  simp [filled, hfirstNe, hsecondNe]

/-- No comma is rendered: `',' ∉ Millionths.signed negative (Millionths.render count)`. -/
theorem comma_notMem_signed_render (negative : Bool) (count : Nat) :
    ',' ∉ Millionths.signed negative (Millionths.render count) := by
  intro hmem
  rcases Millionths.isPlain_of_mem hmem with hdigit | hpoint | hminus
  · exact absurd hdigit (by decide)
  · exact absurd hpoint (by decide)
  · exact absurd hminus (by decide)

/-- Something is rendered: `Millionths.signed negative (Millionths.render count) ≠ []`. -/
theorem signed_render_ne_nil (negative : Bool) (count : Nat) :
    Millionths.signed negative (Millionths.render count) ≠ [] := by
  cases negative <;> simp [Millionths.render_eq]

/-- A delay is read as a finite number. -/
theorem nearestRank_delay_lt (delay : Span) :
    binary64.nearestRank (delay.microseconds.toNat / 1000000) < binary64.infinityRank :=
  Span.nearestRank_secondsOf_lt delay.microseconds.toNat_lt.le

/-- **Reading again.** What was printed of settings with a finite rate is read as `reread` says. -/
theorem ofText?_of_toList_eq {s : Settings} (h : s.rate.isFinite = true) {text : String}
    (htext : text.toList = s.chars) : ofText? text = some s.reread := by
  match s, h, htext with
  | ⟨.finite negative rank, delay⟩, _, htext =>
    have hrate := number?_signed_render negative (SixPlaces.nearestRank_wide_lt rank)
    have hdelay := number?_signed_render false (nearestRank_delay_lt delay)
    have hnarrow : (Binary.convert (Binary.finite negative
        ⟨_, SixPlaces.nearestRank_wide_lt rank⟩ : Binary64) : Binary32) =
          .ofRank negative (binary32.nearestRank (SixPlaces.wide (binary32.magnitude rank))) :=
      Binary.convert_finite _ _
    have hfin : (.ofRank negative (binary32.nearestRank
        (SixPlaces.wide (binary32.magnitude rank))) : Binary32).isFinite = true :=
      (Binary.isFinite_ofRank_iff _ _).mpr (SixPlaces.nearestRank_reread_lt rank)
    rw [ofText?, htext, chars_eq,
      fields_append (comma_notMem_signed_render _ _) (comma_notMem_signed_render _ _)
        (signed_render_ne_nil _ _) (signed_render_ne_nil _ _),
      ofFields?, hrate, hdelay]
    simp only [ofNumbers?, hnarrow, hfin, if_true]
    rw [reread, Binary.abs_toRat_finite, nearest_numeral (nearestRank_delay_lt delay)]
    rfl

/-- **There and back.** The settings of a peak hold that was read from a text are printed, and what
was printed is read with the settings `reread`. -/
theorem exists_print {text : String} {now : Instant} {p : PeakHold}
    (h : Kind.peakHold.read (some text) now = .ok p) :
    p.settings.rate.isFinite = true ∧
      ∃ text', Kind.peakHold.print (some p) = some text' ∧ text'.toList = p.settings.chars ∧
        text'.utf8ByteSize ≤ maxLength ∧
        ∀ now', Kind.peakHold.read (some text') now' = .ok (.start p.settings.reread now') := by
  obtain ⟨rate, delay, hstated, hfresh⟩ := read_eq_ok_iff.mp h
  have hfin : p.settings.rate.isFinite = true := by
    rw [hfresh.rate_eq]
    exact hstated.isFinite_narrow
  obtain ⟨text', hprint, hchars, hsize⟩ := exists_text? hfin
  refine ⟨hfin, text', hprint, hchars, hsize, fun now' => ?_⟩
  rw [read_peakHold, ofText?_of_toList_eq hfin hchars]

/-- A text is read as the same settings every time: `p'.settings = s`. -/
theorem settings_eq_of_read {text : String} {now : Instant} {s : Settings} {p' : PeakHold}
    (hread : Kind.peakHold.read (some text) now = .ok (.start s now))
    (h : Kind.peakHold.read (some text) now = .ok p') : p'.settings = s := by
  rw [hread] at h
  rw [← Except.ok.inj h, settings_start]

/-! ## The rate -/

/-- The rate field of a text: what stands before its first comma. -/
def rateField (text : String) : List Char := text.toList.takeWhile fun c => c ≠ ','

/-- The rate field of printed settings is the printed rate:
`rateField text = Millionths.ofBinary s.rate`. -/
theorem rateField_eq {s : Settings} (h : s.rate.isFinite = true) {text : String}
    (htext : text.toList = s.chars) : rateField text = Millionths.ofBinary s.rate := by
  match s, h, htext with
  | ⟨.finite negative rank, delay⟩, _, htext =>
    -- no comma in the first field, so it ends at the one that is printed
    have hplain : ∀ c ∈ Millionths.signed negative (Millionths.render
        (Millionths.nearest (binary32.magnitude rank))), decide (c ≠ ',') = true := by
      rintro c hc
      rw [decide_eq_true_eq]
      rintro rfl
      exact comma_notMem_signed_render _ _ hc
    rw [rateField, htext, chars_eq, List.takeWhile_append_of_pos hplain,
      List.takeWhile_cons_of_neg (by simp), List.append_nil]
    rfl

/-- The rate that is read again has the same sign, and the magnitude that comes back after six
places. -/
theorem rate_reread (negative : Bool) (rank : Fin binary32.infinityRank) (delay : Span) :
    (reread ⟨.finite negative rank, delay⟩).rate =
      .finite negative ⟨_, SixPlaces.nearestRank_reread_lt rank⟩ := by
  rw [reread, Binary.abs_toRat_finite]
  exact Binary.ofRank_of_lt (SixPlaces.nearestRank_reread_lt rank) negative

/-- The rate that is read again is at most a millionth from the rate:
`|s.reread.rate.toRat - s.rate.toRat| ≤ 1 / 1000000`. -/
theorem abs_rate_reread_sub_le {s : Settings} (h : s.rate.isFinite = true) :
    |s.reread.rate.toRat - s.rate.toRat| ≤ 1 / 1000000 := by
  match s, h with
  | ⟨.finite negative rank, delay⟩, _ =>
    have hclose := SixPlaces.abs_reread_sub_le rank
    rw [rate_reread]
    cases negative with
    | false => exact hclose
    | true =>
      show |-SixPlaces.reread (binary32.magnitude rank) - -binary32.magnitude rank| ≤ _
      rwa [← neg_sub', abs_neg]

/-- From `16` on, whatever the sign, the rate comes back as it was. -/
theorem rate_reread_of_le {s : Settings} (h : s.rate.isFinite = true) (hle : 16 ≤ |s.rate.toRat|) :
    s.reread.rate = s.rate := by
  match s, h, hle with
  | ⟨.finite negative rank, delay⟩, _, hle =>
    rw [Binary.abs_toRat_finite] at hle
    have hrank : binary32.nearestRank (SixPlaces.wide (binary32.magnitude rank)) = rank :=
      binary32.strictMono_magnitude.injective (SixPlaces.reread_of_le hle)
    rw [rate_reread]
    congr 1
    exact Fin.ext hrank

/-- The rate that is read again has the same decimal. -/
theorem ofBinary_rate_reread {s : Settings} (h : s.rate.isFinite = true) :
    Millionths.ofBinary s.reread.rate = Millionths.ofBinary s.rate := by
  match s, h with
  | ⟨.finite negative rank, delay⟩, _ =>
    rw [rate_reread]
    show Millionths.signed negative
      (Millionths.render (Millionths.nearest (SixPlaces.reread (binary32.magnitude rank)))) = _
    rw [SixPlaces.nearest_reread]
    rfl

/-- What becomes of the rate of a peak hold whose settings are printed and read again. -/
structure RereadsRate (p : PeakHold) (printed : String) : Prop where
  /-- This is what is printed. -/
  print_eq : Kind.peakHold.print (some p) = some printed
  /-- It is short enough. -/
  size_le : printed.utf8ByteSize ≤ 128
  /-- It is accepted. -/
  accepted : ∀ now, ∃ p', Kind.peakHold.read (some printed) now = .ok p'
  /-- The rate that is read is finite. -/
  isFinite_rate : ∀ now p', Kind.peakHold.read (some printed) now = .ok p' →
    p'.settings.rate.isFinite = true
  /-- It is at most a millionth from the rate. -/
  abs_sub_le : ∀ now p', Kind.peakHold.read (some printed) now = .ok p' →
    |p'.settings.rate.toRat - p.settings.rate.toRat| ≤ 1 / 10 ^ 6
  /-- It is the rate itself from `16` on. -/
  rate_eq : ∀ now p', Kind.peakHold.read (some printed) now = .ok p' →
    16 ≤ |p.settings.rate.toRat| → p'.settings.rate = p.settings.rate
  /-- Printed again it has the same field. -/
  field_eq : ∀ now p', Kind.peakHold.read (some printed) now = .ok p' →
    ∃ printed', Kind.peakHold.print (some p') = some printed' ∧
      rateField printed' = rateField printed

/-- **Printing the rate.** The settings of every peak hold that was read from a text are printed and
read again with the rate to the last place, and from then on the field of the rate stays. -/
theorem rereads_rate {text : String} {now : Instant} {p : PeakHold}
    (h : Kind.peakHold.read (some text) now = .ok p) : ∃ printed, RereadsRate p printed := by
  obtain ⟨hfin, printed, hprint, hchars, hsize, hread⟩ := exists_print h
  have heq : ∀ now' p', Kind.peakHold.read (some printed) now' = .ok p' →
      p'.settings = p.settings.reread := fun now' p' => settings_eq_of_read (hread now')
  refine ⟨printed, hprint, hsize, fun now' => ⟨_, hread now'⟩, ?_, ?_, ?_, ?_⟩
  · intro now' p' hp'
    exact (exists_print hp').1
  · intro now' p' hp'
    rw [heq now' p' hp', show (1 / 10 ^ 6 : Rat) = 1 / 1000000 by norm_num]
    exact abs_rate_reread_sub_le hfin
  · intro now' p' hp' hle
    rw [heq now' p' hp']
    exact rate_reread_of_le hfin hle
  · intro now' p' hp'
    obtain ⟨hfin', printed', hprint', hchars', -⟩ := exists_print hp'
    refine ⟨printed', hprint', ?_⟩
    rw [rateField_eq hfin' hchars', rateField_eq hfin hchars, heq now' p' hp']
    exact ofBinary_rate_reread hfin

/-- A negative rate of less than half a millionth is printed as a zero with its sign, and that is
what comes back. -/
theorem rereads_rate_tiny :
    Kind.peakHold.read (some "-4e-7,1") ⟨0⟩ =
        .ok (.start ⟨.round true (-4 / 10000000), ⟨100000000⟩⟩ ⟨0⟩) ∧
      Kind.peakHold.print (some (.start ⟨.round true (-4 / 10000000), ⟨100000000⟩⟩ ⟨0⟩)) =
        some "-0.000000,1.000000" ∧
      ∃ printed,
        RereadsRate (.start ⟨.round true (-4 / 10000000), ⟨100000000⟩⟩ ⟨0⟩) printed := by
  have hread : Kind.peakHold.read (some "-4e-7,1") ⟨0⟩ =
      .ok (.start ⟨.round true (-4 / 10000000), ⟨100000000⟩⟩ ⟨0⟩) := by
    decide +kernel
  exact ⟨hread, by decide +kernel, rereads_rate hread⟩

/-! ## The delay -/

/-- The microseconds of the delay that is read again. -/
theorem microseconds_reread (s : Settings) :
    s.reread.delay.microseconds.toNat =
      Span.microsecondsOf (Span.secondsOf s.delay.microseconds.toNat) := by
  rw [reread, nearest_numeral (nearestRank_delay_lt s.delay), Span.microseconds_ofSeconds]
  exact Span.nearestMicroseconds_eq_microsecondsOf rfl rfl

/-- The delay of a peak hold that was read from a text comes back with its drift. -/
theorem delay_reread {text : String} {now : Instant} {p : PeakHold}
    (h : Kind.peakHold.read (some text) now = .ok p) :
    p.settings.reread.delay.microseconds.toNat = p.settings.delay.microseconds.toNat +
        Span.drift p.settings.delay.microseconds.toNat ∧
      (p.settings.reread.delay = p.settings.delay ↔
        Span.drift p.settings.delay.microseconds.toNat = 0) := by
  obtain ⟨rate, delay, hstated, hfresh⟩ := read_eq_ok_iff.mp h
  have hdelay : p.settings.delay = .ofSeconds delay := by
    rw [fresh_iff.mp hfresh]
    rfl
  -- the microseconds were counted from some number of seconds before
  obtain ⟨rank, hrank⟩ := Span.exists_nearestMicroseconds_eq hstated.isFinite_delay
  have hmicros : Span.microsecondsOf (binary64.magnitude rank) =
      p.settings.delay.microseconds.toNat := by
    rw [← hrank, ← Span.microseconds_ofSeconds, ← hdelay]
  have hagain := (microseconds_reread p.settings).trans (Span.microsecondsOf_secondsOf hmicros)
  refine ⟨hagain, ?_⟩
  -- both delays are whole microseconds, so these tell them apart
  rw [reread, Span.microseconds_ofSeconds] at hagain
  rw [reread, hdelay, Span.ofSeconds_inj_iff, ← hdelay, hagain, ← Span.microseconds_ofSeconds,
    ← hdelay]
  omega

/-- What becomes of the delay of a peak hold whose settings are printed and read again. -/
structure RereadsDelay (p : PeakHold) (printed : String) : Prop where
  /-- This is what is printed. -/
  print_eq : Kind.peakHold.print (some p) = some printed
  /-- It is accepted. -/
  accepted : ∀ now, ∃ p', Kind.peakHold.read (some printed) now = .ok p'
  /-- The delay that is read is longer by the drift of its microseconds. -/
  microseconds_eq : ∀ now p', Kind.peakHold.read (some printed) now = .ok p' →
    p'.settings.delay.microseconds.toNat = p.settings.delay.microseconds.toNat +
      Span.drift p.settings.delay.microseconds.toNat
  /-- It is the delay itself exactly where these do not drift. -/
  delay_eq_iff : ∀ now p', Kind.peakHold.read (some printed) now = .ok p' →
    (p'.settings.delay = p.settings.delay ↔
      Span.drift p.settings.delay.microseconds.toNat = 0)
  /-- It is the delay itself up to `2 ^ 32` seconds, from `2 ^ 52` microseconds to `2 ^ 33` seconds,
  and from `2 ^ 53` microseconds on. -/
  delay_eq : ∀ now p', Kind.peakHold.read (some printed) now = .ok p' →
    ∀ count, p.settings.delay.microseconds.toNat = count →
      count ≤ 2 ^ 32 * 1000000 ∨ 2 ^ 52 ≤ count ∧ count ≤ 2 ^ 33 * 1000000 ∨ 2 ^ 53 ≤ count →
      p'.settings.delay = p.settings.delay

/-- **Printing the delay.** The settings of every peak hold that was read from a text are printed
and read again with the delay and its drift. -/
theorem rereads_delay {text : String} {now : Instant} {p : PeakHold}
    (h : Kind.peakHold.read (some text) now = .ok p) : ∃ printed, RereadsDelay p printed := by
  obtain ⟨hfin, printed, hprint, hchars, hsize, hread⟩ := exists_print h
  obtain ⟨hagain, hiff⟩ := delay_reread h
  have heq : ∀ now' p', Kind.peakHold.read (some printed) now' = .ok p' →
      p'.settings = p.settings.reread := fun now' p' => settings_eq_of_read (hread now')
  refine ⟨printed, hprint, fun now' => ⟨_, hread now'⟩, ?_, ?_, ?_⟩
  · intro now' p' hp'
    rw [heq now' p' hp']
    exact hagain
  · intro now' p' hp'
    rw [heq now' p' hp']
    exact hiff
  · rintro now' p' hp' count rfl hwindow
    rw [heq now' p' hp']
    exact hiff.mpr (Span.drift_eq_zero hwindow)

/-- The longest delay comes back, as the microseconds that no span is longer than. -/
theorem rereads_delay_longest :
    Kind.peakHold.read (some "1,1e300") ⟨0⟩ =
        .ok (.start ⟨.round false 1, ⟨18446744073709551600⟩⟩ ⟨0⟩) ∧
      ∃ printed, RereadsDelay (.start ⟨.round false 1, ⟨18446744073709551600⟩⟩ ⟨0⟩) printed := by
  have hread : Kind.peakHold.read (some "1,1e300") ⟨0⟩ =
      .ok (.start ⟨.round false 1, ⟨18446744073709551600⟩⟩ ⟨0⟩) := by
    decide +kernel
  exact ⟨hread, rereads_delay hread⟩

/-- **Drift.** A delay of a little more than `2 ^ 32` seconds comes back one microsecond longer. -/
theorem not_rereads_delay_justPast :
    Kind.peakHold.read (some "2,4300000000.1") ⟨0⟩ =
        .ok (.start ⟨.round false 2, ⟨430000000010000100⟩⟩ ⟨0⟩) ∧
      Kind.peakHold.print (some (.start ⟨.round false 2, ⟨430000000010000100⟩⟩ ⟨0⟩)) =
        some "2.000000,4300000000.100001" ∧
      Kind.peakHold.read (some "2.000000,4300000000.100001") ⟨0⟩ =
        .ok (.start ⟨.round false 2, ⟨430000000010000200⟩⟩ ⟨0⟩) ∧
      (⟨430000000010000200⟩ : Span) ≠ ⟨430000000010000100⟩ := by
  decide +kernel

end Tachometer.PeakHold.Settings
