import Tachometer.Measure.Sampler
import Tachometer.Proofs.Clock.Microseconds

/-! # Which frequencies can be measured

A window is at least a microsecond long and at most as long as the clock runs, and a counter has
32 bits. This keeps every measured frequency well inside both formats: it is finite, and it is
zero only when there were no pulses.

* `Span.seconds_bounds` — a window in seconds.
* `Sampler.frequencyOver_bounds` — the frequency over a window.
* `Sampler.signalOver` — that frequency as a filter is given it, with its own bounds.
* `Sampler.signalOver_mono` — more pulses in a shorter window are a higher frequency. -/

namespace Tachometer

/-! ## Seconds -/

namespace Span

/-- A span in seconds is the rounded quotient of its rounded microseconds. -/
theorem seconds_eq_round (d : Span)
    (h : (.ofNat d.microseconds.toNat : Binary64).isFinite = true) :
    d.seconds =
      .round false ((.ofNat d.microseconds.toNat : Binary64).toRat / 1000000) := by
  obtain ⟨hfin, hval⟩ := million_eq
  rw [seconds, Binary.div_eq_round h hfin (by rw [hval]; norm_num), hval, Binary.negative_ofNat,
    Binary.negative_ofNat, bne_self_eq_false]

/-- The microseconds of a span are finite as a number. -/
theorem microseconds_bounds (d : Span) :
    (.ofNat d.microseconds.toNat : Binary64).isFinite = true ∧
      0 ≤ (.ofNat d.microseconds.toNat : Binary64).toRat ∧
      (.ofNat d.microseconds.toNat : Binary64).toRat ≤ 2 ^ (58 : Int) := by
  have hlt : d.microseconds.toNat ≤ 2 ^ 58 := by
    -- a clock of 64 bits, with a hundred ticks to the microsecond
    have h := d.ticks.toNat_lt
    rw [toNat_microseconds]
    omega
  have hle : (d.microseconds.toNat : Rat) ≤ 2 ^ (58 : Int) := by
    exact_mod_cast hlt
  have hnonneg : (0 : Rat) ≤ d.microseconds.toNat := Nat.cast_nonneg _
  obtain ⟨hfin, hbound⟩ := Binary.round_le_two_zpow (f := .binary64) (by decide) (by decide)
    hnonneg hle false
  exact ⟨hfin, Binary.toRat_nonneg hfin (Binary.round_nonneg hnonneg false), hbound⟩

/-- Every span has finite seconds, at most `2 ^ 39` of them. -/
theorem isFinite_seconds (d : Span) :
    d.seconds.isFinite = true ∧ d.seconds.toRat ≤ 2 ^ (39 : Int) := by
  obtain ⟨hfin, hnonneg, hle⟩ := d.microseconds_bounds
  rw [d.seconds_eq_round hfin]
  refine Binary.round_le_two_zpow (by decide) (by decide) (by positivity) ?_ false
  -- a million is more than 2 ^ 19
  have hpow : (2 : Rat) ^ (58 : Int) / 1000000 ≤ 2 ^ (39 : Int) := by
    norm_num
  exact (div_le_div_of_nonneg_right hle (by norm_num)).trans hpow

/-- No span has negative seconds: `0 ≤ d.seconds`. -/
theorem seconds_nonneg (d : Span) : 0 ≤ d.seconds := by
  obtain ⟨hfin, hnonneg, -⟩ := d.microseconds_bounds
  rw [d.seconds_eq_round hfin]
  exact Binary.round_nonneg (by positivity) false

/-- **A window in seconds** is not too short to divide by: `2 ^ (-20 : Int) ≤ d.seconds.toRat`. -/
theorem seconds_bounds {d : Span} (h : 0 < d.microseconds) : 2 ^ (-20 : Int) ≤ d.seconds.toRat := by
  obtain ⟨hfin, -, -⟩ := d.microseconds_bounds
  have hone : (1 : Rat) ≤ d.microseconds.toNat := by
    exact_mod_cast UInt64.lt_iff_toNat_lt.mp h
  have hmicro : 2 ^ (0 : Int) ≤ (.ofNat d.microseconds.toNat : Binary64).toRat :=
    Binary.two_zpow_le_round (by decide) (by decide) (by simpa using hone) hfin
  have hseconds := d.isFinite_seconds.1
  rw [d.seconds_eq_round hfin] at hseconds ⊢
  refine Binary.two_zpow_le_round (by decide) (by decide) ?_ hseconds
  -- a million is less than 2 ^ 20
  have hpow : (2 : Rat) ^ (-20 : Int) ≤ 2 ^ (0 : Int) / 1000000 := by
    norm_num
  exact hpow.trans (div_le_div_of_nonneg_right hmicro (by norm_num))

/-- A second or more is at least one in seconds: `1 ≤ d.seconds.toRat`. -/
theorem one_le_seconds {d : Span} (h : Sampler.usualLength ≤ d) : 1 ≤ d.seconds.toRat := by
  have hticks : 100000000 ≤ d.ticks.toNat := UInt64.le_iff_toNat_le.mp h
  obtain ⟨hfin, -, -⟩ := d.microseconds_bounds
  obtain ⟨hmfin, hmval⟩ := million_eq
  have hcount : (1000000 : Rat) ≤ d.microseconds.toNat := by
    rw [toNat_microseconds]
    exact_mod_cast (Nat.le_div_iff_mul_le (by decide)).mpr hticks
  have hmicro : (1000000 : Rat) ≤ (.ofNat d.microseconds.toNat : Binary64).toRat := by
    have hle : (.ofNat 1000000 : Binary64) ≤ .ofNat d.microseconds.toNat :=
      Binary.le_round hmfin (hmval.le.trans hcount) false
    rwa [Binary.le_iff_toRat hmfin hfin, hmval] at hle
  have hseconds := d.isFinite_seconds.1
  rw [d.seconds_eq_round hfin] at hseconds ⊢
  have hpow : (2 : Rat) ^ (0 : Int) ≤
      (.ofNat d.microseconds.toNat : Binary64).toRat / 1000000 := by
    rw [zpow_zero, le_div_iff₀ (by norm_num), one_mul]
    exact hmicro
  simpa using Binary.two_zpow_le_round (by decide) (by decide) hpow hseconds

end Span

/-! ## Frequencies -/

namespace Sampler

/-- Only the difference of two readings matters. -/
theorem frequencyOver_eq_sub (window : Span) (before after : UInt32) :
    frequencyOver window before after = frequencyOver window 0 (after - before) := by
  rw [frequencyOver, frequencyOver, UInt32.sub_zero]

/-- A 32-bit count is finite and exact in 64 bits:
`(.ofNat pulses.toNat : Binary64).toRat = pulses.toNat`. -/
theorem toRat_count (pulses : UInt32) :
    (.ofNat pulses.toNat : Binary64).isFinite = true ∧
      (.ofNat pulses.toNat : Binary64).toRat = pulses.toNat :=
  Binary.toRat_ofNat_of_lt pulses.toNat_lt

/-- A frequency is the rounded quotient of exact pulses and rounded seconds. -/
theorem frequencyOver_eq_round {window : Span} (h : 0 < window.microseconds) (pulses : UInt32) :
    frequencyOver window 0 pulses = .round false (pulses.toNat / window.seconds.toRat) := by
  obtain ⟨hfin, hval⟩ := toRat_count pulses
  have hlow := Span.seconds_bounds h
  have hpos : 0 < window.seconds.toRat := lt_of_lt_of_le (by positivity) hlow
  have hsec : window.seconds.negative = false :=
    Binary.negative_of_pos ((Binary.lt_iff_toRat Binary.isFinite_zero
      window.isFinite_seconds.1).mpr (by simpa using hpos))
  rw [frequencyOver, UInt32.sub_zero,
    Binary.div_eq_round hfin window.isFinite_seconds.1 hpos.ne', hval, Binary.negative_ofNat, hsec,
    bne_self_eq_false]

/-- **A measured frequency** is finite and not negative. -/
theorem frequencyOver_bounds {window : Span} (h : 0 < window.microseconds) (pulses : UInt32) :
    (frequencyOver window 0 pulses).isFinite = true ∧ 0 ≤ frequencyOver window 0 pulses ∧
      (frequencyOver window 0 pulses).toRat ≤ 2 ^ (52 : Int) := by
  have hlow := Span.seconds_bounds h
  have hpos : 0 < window.seconds.toRat := lt_of_lt_of_le (by positivity) hlow
  have hnonneg : (0 : Rat) ≤ pulses.toNat / window.seconds.toRat := by
    positivity
  -- at most all pulses of a counter in the shortest window
  have hcount : (pulses.toNat : Rat) ≤ 2 ^ (32 : Int) := by
    exact_mod_cast pulses.toNat_lt.le
  have hle : pulses.toNat / window.seconds.toRat ≤ 2 ^ (52 : Int) := by
    calc pulses.toNat / window.seconds.toRat ≤ 2 ^ (32 : Int) / 2 ^ (-20 : Int) := by gcongr
      _ = 2 ^ (52 : Int) := by norm_num
  rw [frequencyOver_eq_round h]
  obtain ⟨hfin, hbound⟩ := Binary.round_le_two_zpow (f := .binary64) (by decide) (by decide)
    hnonneg hle false
  exact ⟨hfin, Binary.round_nonneg hnonneg false, hbound⟩

/-- Without a pulse the frequency is zero: `frequencyOver window 0 0 = 0`. -/
theorem frequencyOver_zero {window : Span} (h : 0 < window.microseconds) :
    frequencyOver window 0 0 = 0 := by
  have hzero : ((0 : UInt32).toNat : Rat) / window.seconds.toRat = 0 := by
    simp
  rw [frequencyOver_eq_round h, hzero, Binary.round_zero]
  rfl

/-- With a pulse the frequency is far from the smallest numbers:
`2 ^ (-39 : Int) ≤ (frequencyOver window 0 pulses).toRat`. -/
theorem le_frequencyOver {window : Span} (h : 0 < window.microseconds) {pulses : UInt32}
    (hp : pulses ≠ 0) : 2 ^ (-39 : Int) ≤ (frequencyOver window 0 pulses).toRat := by
  have hlow := Span.seconds_bounds h
  have hpos : 0 < window.seconds.toRat := lt_of_lt_of_le (by positivity) hlow
  -- at least one pulse in the longest window
  have hone : (1 : Rat) ≤ pulses.toNat := by
    exact_mod_cast Nat.pos_of_ne_zero fun hzero => hp (UInt32.toNat_inj.mp hzero)
  have hle : (2 : Rat) ^ (-39 : Int) ≤ pulses.toNat / window.seconds.toRat := by
    calc (2 : Rat) ^ (-39 : Int) = 1 / 2 ^ (39 : Int) := by norm_num
      _ ≤ pulses.toNat / window.seconds.toRat := by
        gcongr
        exact window.isFinite_seconds.2
  have hfin := (frequencyOver_bounds h pulses).1
  rw [frequencyOver_eq_round h] at hfin ⊢
  exact Binary.two_zpow_le_round (by decide) (by decide) hle hfin

/-! ## Signals -/

/-- The frequency over a window as a filter is given it. -/
def signalOver (window : Span) (pulses : UInt32) : Binary32 :=
  (frequencyOver window 0 pulses).convert

/-- **A signal** is finite in 32 bits too: `(signalOver window pulses).isFinite = true`. -/
theorem isFinite_signalOver {window : Span} (h : 0 < window.microseconds) (pulses : UInt32) :
    (signalOver window pulses).isFinite = true := by
  obtain ⟨hfin, hnonneg, hle⟩ := frequencyOver_bounds h pulses
  rw [signalOver, Binary.convert_of_isFinite hfin]
  exact (Binary.round_le_two_zpow (by decide) (by decide) (Binary.toRat_nonneg hfin hnonneg) hle
    _).1

/-- No pulses give a signal below zero: `0 ≤ signalOver window pulses`. -/
theorem signalOver_nonneg {window : Span} (h : 0 < window.microseconds) (pulses : UInt32) :
    0 ≤ signalOver window pulses := by
  have hle : (Binary.convert (0 : Binary64) : Binary32) ≤ signalOver window pulses :=
    Binary.convert_mono (frequencyOver_bounds h pulses).2.1
  rwa [Binary.convert_zero] at hle

/-- No pulses are no signal: `signalOver window 0 = 0`. -/
theorem signalOver_zero {window : Span} (h : 0 < window.microseconds) :
    signalOver window 0 = 0 := by
  rw [signalOver, frequencyOver_zero h, Binary.convert_zero]

/-- With a pulse there is a signal: `0 < signalOver window pulses`. -/
theorem signalOver_pos {window : Span} (h : 0 < window.microseconds) {pulses : UInt32}
    (hp : pulses ≠ 0) : 0 < signalOver window pulses := by
  have hfin := isFinite_signalOver h pulses
  rw [Binary.lt_iff_toRat Binary.isFinite_zero hfin, Binary.toRat_zero]
  rw [signalOver, Binary.convert_of_isFinite (frequencyOver_bounds h pulses).1] at hfin ⊢
  have hle := Binary.two_zpow_le_round (by decide) (by decide) (le_frequencyOver h hp) hfin
  exact lt_of_lt_of_le (by positivity) hle

/-- A measured frequency is positive exactly when its signal is:
`0 < frequencyOver window 0 pulses ↔ pulses ≠ 0`. -/
theorem frequencyOver_pos_iff {window : Span} (h : 0 < window.microseconds) (pulses : UInt32) :
    0 < frequencyOver window 0 pulses ↔ pulses ≠ 0 := by
  have hfin := (frequencyOver_bounds h pulses).1
  rw [Binary.lt_iff_toRat Binary.isFinite_zero hfin, Binary.toRat_zero]
  constructor
  · rintro hpos rfl
    rw [frequencyOver_zero h, Binary.toRat_zero] at hpos
    exact absurd hpos (lt_irrefl 0)
  · intro hp
    exact lt_of_lt_of_le (by positivity) (le_frequencyOver h hp)

/-- **More pulses in a shorter window** are a higher frequency:
`signalOver window pulses ≤ signalOver window' pulses'`. -/
theorem signalOver_mono {window window' : Span} {pulses pulses' : UInt32}
    (h : 0 < window.microseconds) (h' : 0 < window'.microseconds)
    (hw : window'.seconds.toRat ≤ window.seconds.toRat) (hp : pulses ≤ pulses') :
    signalOver window pulses ≤ signalOver window' pulses' := by
  have hpos : 0 < window'.seconds.toRat := lt_of_lt_of_le (by positivity) (Span.seconds_bounds h')
  have hcount : (pulses.toNat : Rat) ≤ pulses'.toNat := by
    exact_mod_cast UInt32.le_iff_toNat_le.mp hp
  have hle : pulses.toNat / window.seconds.toRat ≤ pulses'.toNat / window'.seconds.toRat := by
    gcongr
  rw [signalOver, signalOver, frequencyOver_eq_round h, frequencyOver_eq_round h']
  exact Binary.convert_mono (Binary.round_mono hle false false)

end Sampler

end Tachometer
