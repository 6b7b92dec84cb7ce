import Tachometer.Binary.Bits
import Tachometer.Filter.Basic
import Tachometer.Proofs.Filter.Printing

/-! # Configured filters, and what stays of them

A filter is chosen by a name, which is read without regard to the case of the letters `A` to `Z`,
and by its settings. Its calls change neither its kind nor its settings.

* `Kind.ofName_eq_peakHold_iff` — which names stand for a peak hold.
* `Filter.configured_eq` — everything that can come of configuring a filter.
* `Filter.applyWord`, `Filter.apply_ofBits` — one call on bit patterns, of which many stand for what
  is not a number.
* `Filter.Made` — the ways to make a filter.
* `Filter.configured_and_kept` — what is configured, and what every filter keeps. -/

namespace Tachometer

/-! ## Names -/

namespace Kind

/-- The small letter of one of the capitals `A` to `Z`. Every other character is left alone. -/
def folded (c : Char) : Char :=
  if 'A' ≤ c ∧ c ≤ 'Z' then Char.ofNat (c.toNat + 32) else c

/-- Only capitals of the alphabet have another small letter: `c.toLower = folded c`. -/
theorem toLower_eq_folded (c : Char) : c.toLower = folded c := by
  by_cases h : 'A' ≤ c ∧ c ≤ 'Z'
  case neg => exact (dif_neg h).trans (if_neg h).symm
  case pos =>
    -- the numbers of the capitals are small, so the sum is that of natural numbers
    have hle : c.val.toNat ≤ 90 := h.2
    have hvalid : (c.toNat + 32).isValidChar := .inl (show c.val.toNat + 32 < 55296 by omega)
    have hfolded : (Char.ofNat (c.toNat + 32)).toNat = c.toNat + 32 := by
      rw [Char.ofNat, dif_pos hvalid]
      rfl
    refine (dif_pos h).trans (Eq.trans (Char.toNat_inj.mp ?_) (if_pos h).symm)
    rw [hfolded]
    show (c.val + 32).toNat = c.val.toNat + 32
    rw [UInt32.toNat_add]
    exact Nat.mod_eq_of_lt (show c.val.toNat + 32 < 2 ^ 32 by omega)

/-- The names of a peak hold. -/
def Named (name : String) : Prop := name.toList.map folded = "lossypeak".toList

instance (name : String) : Decidable (Named name) :=
  inferInstanceAs (Decidable (name.toList.map folded = "lossypeak".toList))

/-- Names are the same exactly if they are without their capitals:
`sameName a b = true ↔ a.toList.map folded = b.toList.map folded`. -/
theorem sameName_iff {a b : String} :
    sameName a b = true ↔ a.toList.map folded = b.toList.map folded := by
  rw [sameName, beq_iff_eq, funext toLower_eq_folded]

/-- **Names.** A name stands for a peak hold exactly when it is spelled `lossypeak`, in capitals or
not. -/
theorem ofName_eq_peakHold_iff {name : String} : ofName name = .peakHold ↔ Named name := by
  have hpeakHold : sameName "lossypeak" name = decide (Named name) := by
    rw [Bool.eq_iff_iff, sameName_iff, decide_eq_true_iff, Named, eq_comm]
    rfl
  by_cases hnamed : Named name
  · -- then it is not the other name, which is looked at first
    have hnone : sameName "none" name = false := by
      rw [Bool.eq_false_iff, Ne, sameName_iff, hnamed]
      decide
    simp [ofName, all, Kind.name, hpeakHold, hnone, hnamed]
  · cases hnone : sameName "none" name with
    | false => simp [ofName, all, Kind.name, hpeakHold, hnone, hnamed, default]
    | true => simp [ofName, all, Kind.name, hnone, hnamed]

/-- The sign of kelvins is not folded. -/
example : ofName "LossyPeaK" = .peakHold ∧ ofName "lossypea\u212a" = .passThrough := by
  decide

end Kind

namespace Filter

/-! ## Configuring -/

/-- **Configuring.** Everything that can come of a name and a settings text. -/
theorem configured_eq (name text : String) (now : Instant) :
    configured name text now =
      match Kind.ofName name, PeakHold.Settings.ofText? text with
      | .passThrough, _ => ⟨.passThrough, []⟩
      | .peakHold, some settings => ⟨.peakHold (.start settings now), []⟩
      | .peakHold, none =>
        ⟨.passThrough, [.filterRejected "lossypeak" .malformedFilterSettings]⟩ := by
  unfold configured create
  cases Kind.ofName name with
  | passThrough => rfl
  | peakHold =>
    dsimp only
    rw [PeakHold.Settings.read_peakHold]
    cases PeakHold.Settings.ofText? text <;> rfl

/-- What comes of configuring a filter. -/
structure Configures (name text : String) (now : Instant) : Prop where
  /-- A peak hold is configured exactly by its name and settings that are accepted. -/
  kind_iff : (configured name text now).filter.kind = .peakHold ↔
    Kind.Named name ∧ ∃ p, Kind.peakHold.read (some text) now = .ok p
  /-- It is the one that these settings create, and nothing is reported. -/
  create_eq : (configured name text now).filter.kind = .peakHold →
    create .peakHold (some text) now = .ok (configured name text now).filter ∧
      (configured name text now).notices = []
  /-- In every other case the signal passes unchanged. -/
  filter_eq : (configured name text now).filter.kind ≠ .peakHold →
    (configured name text now).filter = .passThrough
  /-- There is one warning exactly for the name of a peak hold with settings that are refused. -/
  warns_iff : (configured name text now).notices.map Notice.level = [.warn] ↔
    Kind.Named name ∧ ∃ fault, Kind.peakHold.read (some text) now = .error fault
  /-- It has the reason. -/
  notices_eq : ∀ fault, Kind.Named name → Kind.peakHold.read (some text) now = .error fault →
    (configured name text now).notices = [.filterRejected "lossypeak" fault]
  /-- Otherwise nothing is reported. -/
  silent : ¬(Kind.Named name ∧ ∃ fault, Kind.peakHold.read (some text) now = .error fault) →
    (configured name text now).notices = []

/-- Any name and settings are configured as `Configures` says. -/
theorem configures (name text : String) (now : Instant) : Configures name text now := by
  have hconfigured := configured_eq name text now
  have hread := PeakHold.Settings.read_peakHold text now
  have hnamed : Kind.ofName name = .peakHold ↔ Kind.Named name := Kind.ofName_eq_peakHold_iff
  cases hkind : Kind.ofName name with
  | passThrough =>
    have hnot : ¬Kind.Named name := by
      simp [← hnamed, hkind]
    rw [hkind] at hconfigured
    -- the settings are not read at all
    constructor <;> simp [hconfigured, hnot, kind]
  | peakHold =>
    have hyes : Kind.Named name := hnamed.mp hkind
    rw [hkind] at hconfigured
    cases hsettings : PeakHold.Settings.ofText? text with
    | none =>
      rw [hsettings] at hconfigured hread
      constructor <;> simp [hconfigured, hread, hyes, kind, Notice.level]
    | some settings =>
      rw [hsettings] at hconfigured hread
      constructor <;> simp [hconfigured, hread, hyes, kind, create, Except.map]

/-! ## Bit patterns -/

/-- Feeds a bit pattern to a filter, and gives the filter afterwards and the bit pattern of the
result. A filter that passes its signal through does not look at it. -/
def applyWord (filter : Filter) (word : UInt32) (now : Instant) : Filter × UInt32 :=
  match filter with
  | .passThrough => (.passThrough, word)
  | .peakHold p =>
    let p' := p.step (.ofBits word.toNat) now
    (.peakHold p', .ofNat p'.peak.toBits)

/-- The bits of a number fill a word of 32: `x.toBits < 2 ^ 32`. -/
theorem toBits_lt (x : Binary32) : x.toBits < 2 ^ 32 := by
  match x with
  | .nan => decide
  | .infinity negative => cases negative <;> decide
  | .finite negative rank =>
    have hrank : (rank : Nat) < 2139095040 := rank.isLt
    have hsign : negative.toNat <<< Format.binary32.magnitudeBits ≤ 2147483648 := by
      cases negative <;> decide
    show negative.toNat <<< Format.binary32.magnitudeBits + rank < 2 ^ 32
    omega

/-- A filter works on bit patterns as it does on the numbers that they stand for. -/
theorem apply_ofBits (filter : Filter) (word : UInt32) (now : Instant) :
    filter.apply (.ofBits word.toNat) now =
      ((filter.applyWord word now).1, .ofBits (filter.applyWord word now).2.toNat) := by
  cases filter with
  | passThrough => rfl
  | peakHold p =>
    -- the peak is read back from its own pattern
    simp only [apply, applyWord]
    rw [UInt32.toNat_ofNat_of_lt' (toBits_lt _), Binary.ofBits_toBits]

/-! ## Runs -/

/-- The filter after a row of calls, oldest first. -/
def after (filter : Filter) (calls : List (Binary32 × Instant)) : Filter :=
  calls.foldl (fun filter call => (filter.apply call.1 call.2).1) filter

/-- The results of a row of calls. -/
def results (filter : Filter) : List (Binary32 × Instant) → List Binary32
  | [] => []
  | (input, now) :: calls =>
    let done := filter.apply input now
    done.2 :: done.1.results calls

/-- The results of a row of calls as bit patterns. -/
def words (filter : Filter) : List (UInt32 × Instant) → List UInt32
  | [] => []
  | (word, now) :: calls =>
    let done := filter.applyWord word now
    done.2 :: done.1.words calls

/-- No calls change nothing: `filter.after [] = filter`. -/
@[simp] theorem after_nil (filter : Filter) : filter.after [] = filter := rfl

/-- A run goes on from its first call:
`filter.after (call :: calls) = (filter.apply call.1 call.2).1.after calls`. -/
@[simp] theorem after_cons (filter : Filter) (call : Binary32 × Instant)
    (calls : List (Binary32 × Instant)) :
    filter.after (call :: calls) = (filter.apply call.1 call.2).1.after calls := rfl

/-- A run does not change what kind of filter it is: `(filter.after calls).kind = filter.kind`. -/
@[simp] theorem kind_after (filter : Filter) (calls : List (Binary32 × Instant)) :
    (filter.after calls).kind = filter.kind := by
  induction calls generalizing filter with
  | nil => rfl
  | cons call calls ih => rw [after_cons, ih, kind_apply]

/-- A run does not change the settings text: `(filter.after calls).text? = filter.text?`. -/
@[simp] theorem text?_after (filter : Filter) (calls : List (Binary32 × Instant)) :
    (filter.after calls).text? = filter.text? := by
  induction calls generalizing filter with
  | nil => rfl
  | cons call calls ih => rw [after_cons, ih, text?_apply]

/-- The bit patterns that come out stand for the results of the numbers that the bit patterns which
go in stand for. -/
theorem results_ofBits (filter : Filter) (calls : List (UInt32 × Instant)) :
    filter.results (calls.map fun call => (.ofBits call.1.toNat, call.2)) =
      (filter.words calls).map fun word => .ofBits word.toNat := by
  induction calls generalizing filter with
  | nil => rfl
  | cons call calls ih => simp only [List.map_cons, results, words, apply_ofBits, ih]

/-- A pass-through gives back its inputs: `passThrough.results calls = calls.map Prod.fst`. -/
theorem results_passThrough (calls : List (Binary32 × Instant)) :
    passThrough.results calls = calls.map Prod.fst := by
  induction calls with
  | nil => rfl
  | cons call calls ih => rw [List.map_cons, ← ih]; rfl

/-- A pass-through gives back every bit of its inputs, of what is not a number too:
`passThrough.words calls = calls.map Prod.fst`. -/
theorem words_passThrough (calls : List (UInt32 × Instant)) :
    passThrough.words calls = calls.map Prod.fst := by
  induction calls with
  | nil => rfl
  | cons call calls ih => rw [List.map_cons, ← ih]; rfl

/-! ## Made filters -/

/-- The ways to make a filter. -/
inductive Made : Filter → Prop where
  /-- The filter that passes its signal through. -/
  | passThrough : Made .passThrough
  /-- The filter that there is without a choice. -/
  | default : Made default
  /-- A filter of a kind with settings that are accepted. -/
  | create {kind : Kind} {text : Option String} {now : Instant} {filter : Filter}
    (h : create kind text now = .ok filter) : Made filter
  /-- A filter from its name and settings. -/
  | configured (name text : String) (now : Instant) : Made (configured name text now).filter

/-- However a filter was made, one like it can be created:
`∃ kind text now, Filter.create kind text now = .ok filter`. -/
theorem Made.exists_create {filter : Filter} (h : Made filter) :
    ∃ kind text now, Filter.create kind text now = .ok filter := by
  cases h with
  | passThrough => exact ⟨.passThrough, none, ⟨0⟩, rfl⟩
  | default => exact ⟨.passThrough, none, ⟨0⟩, rfl⟩
  | create h => exact ⟨_, _, _, h⟩
  | configured name text now =>
    -- what is not configured as a peak hold passes its signal through
    have hconfigures := configures name text now
    by_cases hkind : (Filter.configured name text now).filter.kind = .peakHold
    · exact ⟨.peakHold, some text, now, (hconfigures.create_eq hkind).1⟩
    · rw [hconfigures.filter_eq hkind]
      exact ⟨.passThrough, none, ⟨0⟩, rfl⟩

/-- A peak hold is created from settings that are accepted:
`∃ text', Kind.peakHold.read (some text') now = .ok p`. -/
theorem exists_read_of_create {kind : Kind} {text : Option String} {now : Instant} {p : PeakHold}
    (h : create kind text now = .ok (.peakHold p)) :
    ∃ text', Kind.peakHold.read (some text') now = .ok p := by
  match kind, text with
  | .passThrough, _ => exact absurd h (by simp [create])
  | .peakHold, none => exact absurd h (by simp [create, Kind.read, Except.map])
  | .peakHold, some text =>
    refine ⟨text, ?_⟩
    unfold create at h
    cases hread : Kind.peakHold.read (some text) now with
    | error fault => simp [hread, Except.map] at h
    | ok q => simpa [hread, Except.map] using h

/-- **Settings.** A filter that was made has a settings text exactly when it holds peaks:
`filter.text?.isSome = true ↔ filter.kind = .peakHold`. -/
theorem Made.isSome_text?_iff {filter : Filter} (h : Made filter) :
    filter.text?.isSome = true ↔ filter.kind = .peakHold := by
  obtain ⟨kind, text, now, hcreate⟩ := h.exists_create
  cases filter with
  | passThrough => decide
  | peakHold p =>
    obtain ⟨text', hread⟩ := exists_read_of_create hcreate
    obtain ⟨-, printed, hprint, -⟩ := PeakHold.Settings.exists_print hread
    exact iff_of_true (Option.isSome_iff_exists.mpr ⟨printed, hprint⟩) rfl

/-- What a filter keeps through a row of calls. -/
structure Keeps (filter : Filter) (calls : List (Binary32 × Instant)) : Prop where
  /-- Its kind. -/
  kind_eq : (filter.after calls).kind = filter.kind
  /-- Its settings text. -/
  text?_eq : (filter.after calls).text? = filter.text?
  /-- It has settings exactly when it holds peaks. -/
  isSome_text?_iff :
    (filter.after calls).text?.isSome = true ↔ (filter.after calls).kind = .peakHold
  /-- If it passes its signal through, the results are the inputs. -/
  results_eq : filter.kind = .passThrough → filter.results calls = calls.map Prod.fst

/-- A filter that was made keeps its kind and its settings through any calls:
`Keeps filter calls`. -/
theorem Made.keeps {filter : Filter} (h : Made filter) (calls : List (Binary32 × Instant)) :
    Keeps filter calls where
  kind_eq := kind_after filter calls
  text?_eq := text?_after filter calls
  isSome_text?_iff := by
    rw [text?_after, kind_after]
    exact h.isSome_text?_iff
  results_eq hkind := by
    cases filter with
    | passThrough => exact results_passThrough calls
    | peakHold p => exact absurd hkind (by simp [kind])

/-- **Configuring and keeping.** A name and settings give a peak hold exactly if the name is its
name and the settings are accepted. However a filter was made, its calls change neither its kind
nor its settings. On bit patterns it works as on the numbers that they stand for, and one that
passes its signal through gives back every number, and every bit of it. -/
theorem configured_and_kept (name text : String) (now : Instant) {filter : Filter}
    (h : Made filter) (calls : List (Binary32 × Instant)) (patterns : List (UInt32 × Instant)) :
    Configures name text now ∧ Keeps filter calls ∧
      filter.results (patterns.map fun call => (.ofBits call.1.toNat, call.2)) =
        (filter.words patterns).map (fun word => .ofBits word.toNat) ∧
      (filter.kind = .passThrough → filter.words patterns = patterns.map Prod.fst) := by
  refine ⟨configures name text now, h.keeps calls, results_ofBits filter patterns,
    fun hkind => ?_⟩
  cases filter with
  | passThrough => exact words_passThrough patterns
  | peakHold p => exact absurd hkind (by simp [kind])

/-- In capitals too the name gives a peak hold, which keeps its settings while its peak drops. With
a semicolon between the settings these are refused, and then even the bits of what is not a number
come back. -/
theorem configured_and_kept_capitals :
    let held := (configured "LossyPEAK" "2.0,0.5" ⟨0⟩).filter
    let calls : List (Binary32 × Instant) := [(.round false 10, ⟨0⟩), (0, ⟨100000000⟩)]
    let refused := configured "LossyPEAK" "2.0;0.5" ⟨0⟩
    Made held ∧ held.text? = some "2.000000,0.500000" ∧
      held.results calls = [.round false 10, .round false 9] ∧ Keeps held calls ∧
      Configures "LossyPEAK" "2.0;0.5" ⟨0⟩ ∧
      refused.notices = [.filterRejected "lossypeak" .malformedFilterSettings] ∧
      refused.filter.words [(0xffc00001, ⟨7⟩)] = [0xffc00001] := by
  intro held calls refused
  have hheld : Made held := .configured "LossyPEAK" "2.0,0.5" ⟨0⟩
  have hrefused : Made refused.filter := .configured "LossyPEAK" "2.0;0.5" ⟨0⟩
  obtain ⟨-, hkeeps, -, -⟩ := configured_and_kept "LossyPEAK" "2.0,0.5" ⟨0⟩ hheld calls []
  obtain ⟨hconfigures, -, -, hwords⟩ :=
    configured_and_kept "LossyPEAK" "2.0;0.5" ⟨0⟩ hrefused calls [(0xffc00001, ⟨7⟩)]
  exact ⟨hheld, by decide +kernel, by decide +kernel, hkeeps, hconfigures, by decide +kernel,
    hwords (by decide +kernel)⟩

end Filter

end Tachometer
