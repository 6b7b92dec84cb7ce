import Mathlib.Data.List.Lattice
import Mathlib.Data.List.Perm.Subperm
import Mathlib.Data.List.Nodup
import Tachometer.Input.Pins

/-! # Lists of pins and their first fault

The check of input pins goes through the channels in order. What it lets through is stated here
without that order, and what it refuses is told by the first channel that does not fit.

* `channelFault?_eq_none_iff` — one channel passes when its pin is in range and new.
* `pinFault?_eq_none_iff` — a whole list passes when all pins are in range and no two are equal.
* `length_le_pinSpace` — so a list that passes is no longer than there are pins.
* `FirstFault`, `pinFault?_eq_some_iff` — a list that does not pass has the fault of the first
  channel that does not fit. -/

namespace Tachometer

/-- A channel has no fault when its pin is in range and none of the earlier channels has it. -/
theorem channelFault?_eq_none_iff (earlier : List Nat) (pin channel : Nat) :
    channelFault? earlier pin channel = none ↔ pin < pinSpace ∧ pin ∉ earlier := by
  unfold channelFault?
  by_cases h : pinSpace ≤ pin
  · rw [if_pos h]
    simp [Nat.not_lt.mpr h]
  · rw [if_neg h, Option.map_eq_none_iff, List.idxOf?_eq_none_iff]
    simp [Nat.not_le.mp h]

/-- A list has no two equal members exactly when no member stands among those before it. -/
theorem nodup_iff_notMem_take (pins : List Nat) :
    pins.Nodup ↔ ∀ (channel : Nat) (h : channel < pins.length),
      pins[channel] ∉ pins.take channel := by
  rw [List.nodup_iff_getElem?_ne_getElem?]
  constructor
  · intro hd channel h hmem
    obtain ⟨first, hf, heq⟩ := List.getElem_of_mem hmem
    rw [List.length_take] at hf
    rw [List.getElem_take] at heq
    refine hd first channel (by omega) h ?_
    rw [List.getElem?_eq_getElem (by omega), List.getElem?_eq_getElem h, heq]
  · intro hn first second hlt hs heq
    rw [List.getElem?_eq_getElem (by omega), List.getElem?_eq_getElem hs,
      Option.some.injEq] at heq
    refine hn second hs ?_
    rw [← heq]
    exact List.mem_take_iff_getElem.mpr ⟨first, by omega, rfl⟩

/-- **Lists without a fault.** The check passes exactly the lists whose pins are all in range and
pairwise different. -/
theorem pinFault?_eq_none_iff (pins : List Nat) :
    pinFault? pins = none ↔ (∀ pin ∈ pins, pin < pinSpace) ∧ pins.Nodup := by
  have h : pinFault? pins = none ↔ ∀ (channel : Nat) (h : channel < pins.length),
      pins[channel] < pinSpace ∧ pins[channel] ∉ pins.take channel := by
    unfold pinFault?
    rw [List.findSome?_eq_none_iff]
    constructor
    · intro hall channel hc
      rw [← channelFault?_eq_none_iff _ _ channel]
      exact hall (pins[channel], channel) (List.mk_mem_zipIdx_iff_getElem?.mpr
        (List.getElem?_eq_getElem hc))
    · rintro hall ⟨pin, channel⟩ hmem
      obtain ⟨hc, rfl⟩ := List.getElem?_eq_some_iff.mp (List.mk_mem_zipIdx_iff_getElem?.mp hmem)
      exact (channelFault?_eq_none_iff _ _ _).mpr (hall channel hc)
  rw [h, nodup_iff_notMem_take, List.forall_mem_iff_getElem]
  exact ⟨fun hall => ⟨fun c hc => (hall c hc).1, fun c hc => (hall c hc).2⟩,
    fun hall c hc => ⟨hall.1 c hc, hall.2 c hc⟩⟩

/-- **No room for more channels than pins.** A list without a fault has at most one channel for each
pin: `pins.length ≤ pinSpace`. -/
theorem length_le_pinSpace {pins : List Nat} (h : pinFault? pins = none) :
    pins.length ≤ pinSpace := by
  obtain ⟨hlt, hd⟩ := (pinFault?_eq_none_iff pins).mp h
  have hsub : pins ⊆ List.range pinSpace := fun pin hp => List.mem_range.mpr (hlt pin hp)
  simpa using (List.subperm_of_subset hd hsub).length_le

/-! ## The first fault -/

/-- A channel fits if its pin is in range and no earlier channel has it. -/
def Fits (pins : List Nat) (channel : Nat) : Prop :=
  ∃ pin, pins[channel]? = some pin ∧ pin < pinSpace ∧ ∀ first < channel, pins[first]? ≠ some pin

/-- The fault of the first channel that does not fit. -/
inductive FirstFault (pins : List Nat) : Fault → Prop
  /-- Its pin is out of range. -/
  | outOfRange {pin channel : Nat} (fits : ∀ other < channel, Fits pins other)
      (pin_eq : pins[channel]? = some pin) (le_pin : pinSpace ≤ pin) :
      FirstFault pins (.inputPinOutOfRange pin channel)
  /-- Its pin is in range, and one earlier channel has it. -/
  | duplicate {pin first channel : Nat} (fits : ∀ other < channel, Fits pins other)
      (pin_eq : pins[channel]? = some pin) (pin_lt : pin < pinSpace) (first_lt : first < channel)
      (first_eq : pins[first]? = some pin)
      (unique : ∀ other < channel, pins[other]? = some pin → other = first) :
      FirstFault pins (.duplicateInputPin pin first channel)

variable {pins : List Nat} {pin channel : Nat} {fault : Fault}

/-- A pin stands among those before a channel if an earlier channel has it. -/
theorem mem_take_iff : pin ∈ pins.take channel ↔ ∃ first < channel, pins[first]? = some pin := by
  rw [List.mem_take_iff_getElem]
  constructor
  · rintro ⟨first, h, heq⟩
    exact ⟨first, by omega, List.getElem?_eq_some_iff.mpr ⟨by omega, heq⟩⟩
  · rintro ⟨first, h, heq⟩
    obtain ⟨hlt, heq⟩ := List.getElem?_eq_some_iff.mp heq
    exact ⟨first, by omega, heq⟩

/-- A channel with a pin fits when it has no fault. -/
theorem fits_iff (h : pins[channel]? = some pin) :
    Fits pins channel ↔ channelFault? (pins.take channel) pin channel = none := by
  rw [channelFault?_eq_none_iff, mem_take_iff, not_exists]
  simp only [not_and]
  constructor
  · rintro ⟨other, hother, hfits⟩
    obtain rfl := Option.some.inj (h.symm.trans hother)
    exact hfits
  · intro hfits
    exact ⟨pin, h, hfits⟩

/-- The check stops at a channel with a fault after channels that fit. -/
theorem pinFault?_eq_some_iff_exists :
    pinFault? pins = some fault ↔ ∃ channel pin, (∀ other < channel, Fits pins other) ∧
      pins[channel]? = some pin ∧
      channelFault? (pins.take channel) pin channel = some fault := by
  unfold pinFault?
  rw [List.findSome?_eq_some_iff]
  constructor
  · rintro ⟨earlier, ⟨pin, channel⟩, later, hsplit, hfault, hnone⟩
    -- the channels before the split are those with a smaller number
    have hsome : pins.zipIdx[earlier.length]? = some (pin, channel) := by
      simp [hsplit]
    rw [List.getElem?_zipIdx, Option.map_eq_some_iff] at hsome
    obtain ⟨pin, hpin, heq⟩ := hsome
    obtain ⟨rfl, hchannel⟩ := Prod.mk.injEq _ _ _ _ ▸ heq
    obtain rfl : earlier.length = channel := by
      omega
    refine ⟨_, pin, ?_, hpin, hfault⟩
    intro other hlt
    have hother : pins.zipIdx[other]? = some earlier[other] := by
      rw [hsplit, List.getElem?_append_left hlt, List.getElem?_eq_getElem hlt]
    rw [List.getElem?_zipIdx, Option.map_eq_some_iff] at hother
    obtain ⟨pin', hpin', heq'⟩ := hother
    have hclean := hnone _ (List.getElem_mem hlt)
    rw [← heq', Nat.zero_add] at hclean
    exact (fits_iff hpin').mpr hclean
  · rintro ⟨channel, pin, hfits, hpin, hfault⟩
    have hsome : pins.zipIdx[channel]? = some (pin, channel) := by
      simp [List.getElem?_zipIdx, hpin]
    obtain ⟨hlt, heq⟩ := List.getElem?_eq_some_iff.mp hsome
    refine ⟨pins.zipIdx.take channel, (pin, channel), pins.zipIdx.drop (channel + 1), ?_, hfault,
      ?_⟩
    · rw [← heq, ← List.drop_eq_getElem_cons hlt, List.take_append_drop]
    · rintro ⟨other, number⟩ hmem
      obtain ⟨i, hi, heq⟩ := List.mem_take_iff_getElem.mp hmem
      rw [List.getElem_zipIdx, Nat.zero_add] at heq
      obtain ⟨rfl, rfl⟩ := Prod.mk.injEq _ _ _ _ ▸ heq
      exact (fits_iff (List.getElem?_eq_getElem _)).mp (hfits i (by omega))

/-- Where all channels fit no two of them have the same pin: `first = second`. -/
theorem eq_of_fits {first second : Nat} (hfits : ∀ other < channel, Fits pins other)
    (hfirst : first < channel) (hsecond : second < channel) (h : pins[first]? = some pin)
    (h' : pins[second]? = some pin) : first = second := by
  have hnot : ∀ {early late}, late < channel → pins[early]? = some pin → pins[late]? = some pin →
      ¬early < late := by
    intro early late hlate hearly hpin hlt
    obtain ⟨_, heq, -, hnew⟩ := hfits late hlate
    obtain rfl := Option.some.inj (hpin.symm.trans heq)
    exact hnew early hlt hearly
  have hle := hnot hsecond h h'
  have hge := hnot hfirst h' h
  omega

/-- **Lists with a fault.** The check refuses a list with the fault of the first channel that does
not fit: `pinFault? pins = some fault ↔ FirstFault pins fault`. -/
theorem pinFault?_eq_some_iff : pinFault? pins = some fault ↔ FirstFault pins fault := by
  rw [pinFault?_eq_some_iff_exists]
  constructor
  · rintro ⟨channel, pin, hfits, hpin, hfault⟩
    unfold channelFault? at hfault
    split at hfault
    case isTrue hrange =>
      obtain rfl := Option.some.inj hfault
      exact .outOfRange hfits hpin hrange
    case isFalse hrange =>
      obtain ⟨first, hindex, rfl⟩ := Option.map_eq_some_iff.mp hfault
      obtain ⟨hlt, heq, -⟩ := List.idxOf?_eq_some_iff.mp hindex
      rw [List.length_take] at hlt
      rw [List.getElem_take] at heq
      have hfirst : pins[first]? = some pin := List.getElem?_eq_some_iff.mpr ⟨by omega, heq⟩
      exact .duplicate hfits hpin (Nat.not_le.mp hrange) (by omega) hfirst fun other hother h =>
        eq_of_fits hfits hother (by omega) h hfirst
  · intro h
    cases h with
    | outOfRange hfits hpin hrange => exact ⟨_, _, hfits, hpin, if_pos hrange⟩
    | @duplicate pin first channel hfits hpin hrange hlt hfirst hunique =>
      obtain ⟨hlength, heq⟩ := List.getElem?_eq_some_iff.mp hfirst
      have hindex : (pins.take channel).idxOf? pin = some first := by
        rw [List.idxOf?_eq_some_iff]
        refine ⟨by rw [List.length_take]; omega, by rwa [List.getElem_take], ?_⟩
        intro other hother hsame
        rw [List.getElem_take] at hsame
        have := hunique other (by omega) (List.getElem?_eq_some_iff.mpr ⟨by omega, hsame⟩)
        omega
      refine ⟨channel, pin, hfits, hpin, ?_⟩
      rw [channelFault?, if_neg (Nat.not_le.mpr hrange), hindex, Option.map_some]

end Tachometer
