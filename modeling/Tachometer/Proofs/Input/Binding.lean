import Mathlib.Data.List.DropRight
import Mathlib.Data.Set.Function
import Tachometer.Input.Counters
import Tachometer.Proofs.Input.Pins

/-! # What pulse counters stand for

Counters come to be as they are through a history: configurations, taken over or refused, and
edges. Everything that can be asked of them is a function of that history.

* `Counters.configured?` — the pins of the last configuration that was taken over.
* `Counters.pulses` — the edges on a channel's pin since then.
* `Counters.Represents` — the table binds exactly these pins and the counts are these edges.
* `Counters.represents_after` — so it is after every history. -/

namespace Tachometer.Counters

variable {n : Nat}

/-! ## Histories -/

/-- What can happen to counters. -/
inductive Event (n : Nat) where
  /-- The pins of all channels are chosen. -/
  | configure (pins : Vector Nat n)
  /-- There is an edge on a pin. -/
  | edge (pin : Nat)
  deriving DecidableEq, Repr

/-- The pins that an event binds, if it is a configuration that is taken over. -/
def Event.binds? : Event n → Option (Vector Nat n)
  | .configure pins => if pinFault? pins.toList = none then some pins else none
  | .edge _ => none

/-- The counters after an event. -/
def respond (c : Counters n) : Event n → Counters n
  | .configure pins => (c.configure pins).counters
  | .edge pin => c.edge pin

/-- The counters after a history, oldest event first. -/
def after (c : Counters n) (history : List (Event n)) : Counters n := history.foldl respond c

/-- The pins of the last configuration that was taken over. -/
def configured? (history : List (Event n)) : Option (Vector Nat n) :=
  (history.filterMap Event.binds?).getLast?

/-- What happened after the last configuration that was taken over. -/
def sinceConfigured (history : List (Event n)) : List (Event n) :=
  history.rtakeWhile fun event => event.binds?.isNone

/-- The edges on the pin of a channel since the last configuration that was taken over; none
before there was one. -/
def pulses (history : List (Event n)) (channel : Fin n) : Nat :=
  match configured? history with
  | some pins => (sinceConfigured history).count (.edge (pins.get channel))
  | none => 0

/-- No events change nothing: `c.after [] = c`. -/
@[simp] theorem after_nil (c : Counters n) : c.after [] = c := rfl

/-- The last event of a history comes after the history before it:
`c.after (history ++ [event]) = (c.after history).respond event`. -/
@[simp] theorem after_concat (c : Counters n) (history : List (Event n)) (event : Event n) :
    c.after (history ++ [event]) = (c.after history).respond event := by
  simp [after]

/-- The last event decides which pins are bound if it is a configuration that is taken over. -/
theorem configured?_concat (history : List (Event n)) (event : Event n) :
    configured? (history ++ [event]) = event.binds?.or (configured? history) := by
  cases h : event.binds? <;> simp [configured?, h]

/-- A configuration that is taken over makes its pins the bound ones:
`configured? (history ++ [event]) = some pins`. -/
theorem configured?_concat_of_binds {event : Event n} {pins : Vector Nat n}
    (h : event.binds? = some pins) (history : List (Event n)) :
    configured? (history ++ [event]) = some pins := by
  rw [configured?_concat, h, Option.some_or]

/-- Any other event leaves the bound pins as they were:
`configured? (history ++ [event]) = configured? history`. -/
theorem configured?_concat_of_binds_eq_none {event : Event n} (h : event.binds? = none)
    (history : List (Event n)) : configured? (history ++ [event]) = configured? history := by
  rw [configured?_concat, h, Option.none_or]

/-- A configuration that is taken over starts every count anew:
`pulses (history ++ [event]) channel = 0`. -/
theorem pulses_concat_of_binds {event : Event n} {pins : Vector Nat n}
    (h : event.binds? = some pins) (history : List (Event n)) (channel : Fin n) :
    pulses (history ++ [event]) channel = 0 := by
  simp [pulses, configured?_concat_of_binds h, sinceConfigured, h]

/-- A refused configuration leaves every count as it was. -/
theorem pulses_concat_configure {pins : Vector Nat n} (h : (Event.configure pins).binds? = none)
    (history : List (Event n)) (channel : Fin n) :
    pulses (history ++ [.configure pins]) channel = pulses history channel := by
  unfold pulses
  rw [configured?_concat_of_binds_eq_none h]
  cases configured? history with
  | none => rfl
  | some bound => simp [sinceConfigured, h]

/-- An edge adds one to the count of the channel whose pin it is on. -/
theorem pulses_concat_edge (history : List (Event n)) (pin : Nat) (channel : Fin n) :
    pulses (history ++ [.edge pin]) channel =
      pulses history channel +
        if (configured? history).any (fun pins => pins.get channel = pin) then 1 else 0 := by
  have hb : (Event.edge pin : Event n).binds? = none := rfl
  unfold pulses
  rw [configured?_concat_of_binds_eq_none hb]
  cases configured? history with
  | none => rfl
  | some pins =>
    simp only [sinceConfigured, List.rtakeWhile_concat, hb, Option.isNone_none, ↓reduceIte,
      List.count_append, List.count_singleton, Option.any_some, Nat.add_left_cancel_iff]
    by_cases h : pins.get channel = pin
    · simp [h]
    · simp [h, Ne.symm h]

/-! ## Entries of the table -/

/-- The entries of a byte tell fewer channels apart than there are pins, so none overflows:
`(entryOf channel).toNat = channel + 1`. -/
theorem toNat_entryOf {channel : Nat} (h : channel < pinSpace) :
    (entryOf channel).toNat = channel + 1 := by
  have hp : pinSpace = 32 := rfl
  rw [entryOf, UInt8.toNat_add, UInt8.toNat_ofNat', UInt8.toNat_one]
  omega

/-- A pin with the entry of a channel is bound to that channel: `c.bound? pin = some channel`. -/
theorem bound?_of_entryOf {c : Counters n} {pin channel : Nat} (hc : channel < pinSpace)
    (h : c.table[pin]? = some (entryOf channel)) : c.bound? pin = some channel := by
  have he := toNat_entryOf hc
  have hne : entryOf channel ≠ unbound := by
    intro heq
    rw [heq] at he
    exact absurd he (by simp [unbound])
  simp [bound?, h, hne, he]

/-- A pin with the entry `unbound` is bound to nothing. -/
theorem bound?_of_unbound {c : Counters n} {pin : Nat} (h : c.table[pin]? = some unbound) :
    c.bound? pin = none := by
  simp [bound?, h]

/-- A pin out of range is bound to nothing: `c.bound? pin = none`. -/
theorem bound?_of_le (c : Counters n) {pin : Nat} (h : pinSpace ≤ pin) : c.bound? pin = none := by
  simp [bound?, h]

/-- The binding of a pin depends on the table only: `c.bound? pin = d.bound? pin`. -/
theorem bound?_congr {c d : Counters n} (h : c.table = d.table) (pin : Nat) :
    c.bound? pin = d.bound? pin := by
  simp [bound?, h]

/-! ## Assignments -/

/-- A pin that is not assigned keeps its entry:
`(c.assignAll assignments).table[pin]? = c.table[pin]?`. -/
theorem table_assignAll_of_notMem {c : Counters n} {assignments : List (Nat × Nat)} {pin : Nat}
    (h : pin ∉ assignments.map Prod.fst) :
    (c.assignAll assignments).table[pin]? = c.table[pin]? := by
  induction assignments generalizing c with
  | nil => rfl
  | cons first rest ih =>
    obtain ⟨other, channel⟩ := first
    rw [List.map_cons, List.mem_cons, not_or] at h
    rw [assignAll_cons, ih h.2, assign, Vector.getElem?_setIfInBounds, if_neg (Ne.symm h.1)]

/-- Where no pin is assigned twice, an assigned pin has the entry of its channel, whatever it had
before. -/
theorem table_assignAll_of_mem {c : Counters n} {assignments : List (Nat × Nat)}
    (hd : (assignments.map Prod.fst).Nodup) {pin channel : Nat}
    (h : (pin, channel) ∈ assignments) (hp : pin < pinSpace) :
    (c.assignAll assignments).table[pin]? = some (entryOf channel) := by
  induction assignments generalizing c with
  | nil => exact absurd h List.not_mem_nil
  | cons first rest ih =>
    obtain ⟨other, number⟩ := first
    rw [List.map_cons, List.nodup_cons] at hd
    rw [assignAll_cons]
    rcases List.mem_cons.mp h with heq | hmem
    · -- the assignment is the first one, and no later one touches its pin
      obtain ⟨rfl, rfl⟩ := Prod.mk.injEq _ _ _ _ ▸ heq
      rw [table_assignAll_of_notMem hd.1, assign, Vector.getElem?_setIfInBounds, if_pos rfl,
        if_pos hp]
    · exact ih hd.2 hmem

/-- An assignment sets the counter of its channel to zero. -/
theorem counts_assign (c : Counters n) (pin number : Nat) (channel : Fin n) :
    (c.assign pin number).counts.get channel =
      if number = channel.val then 0 else c.counts.get channel :=
  Vector.getElem_setIfInBounds channel.isLt

/-- Assignments set counters to zero and change no other. -/
theorem counts_assignAll (c : Counters n) (assignments : List (Nat × Nat)) (channel : Fin n) :
    (c.assignAll assignments).counts.get channel =
      if channel.val ∈ assignments.map Prod.snd then 0 else c.counts.get channel := by
  induction assignments generalizing c with
  | nil => rfl
  | cons first rest ih =>
    obtain ⟨pin, number⟩ := first
    rw [assignAll_cons, ih, counts_assign, List.map_cons]
    simp only [List.mem_cons]
    by_cases hr : channel.val ∈ rest.map Prod.snd
    · rw [if_pos hr, if_pos (Or.inr hr)]
    · rw [if_neg hr]
      by_cases hn : number = channel.val
      · rw [if_pos hn, if_pos (Or.inl hn.symm)]
      · rw [if_neg hn, if_neg (by simp [hr, Ne.symm hn])]

/-! ## Configurations that are taken over -/

/-- Pins without a fault are listened on: `(c.configure pins).counters = c.listen pins`. -/
theorem configure_of_binds {pins : Vector Nat n} (h : pinFault? pins.toList = none)
    (c : Counters n) : (c.configure pins).counters = c.listen pins := by
  simp [configure, h]

/-- Pins with a fault change nothing: `(c.configure pins).counters = c`. -/
theorem configure_of_fault {pins : Vector Nat n} (h : pinFault? pins.toList ≠ none)
    (c : Counters n) : (c.configure pins).counters = c := by
  obtain ⟨fault, hf⟩ := Option.ne_none_iff_exists'.mp h
  simp [configure, hf]

/-- What is reported as a fault is the fault of the pins:
`(c.configure pins).fault = pinFault? pins.toList`. -/
theorem fault_configure (c : Counters n) (pins : Vector Nat n) :
    (c.configure pins).fault = pinFault? pins.toList := by
  unfold configure
  split <;> simp_all

/-- A configuration that is taken over has at most as many channels as there are pins:
`n ≤ pinSpace`. -/
theorem le_pinSpace_of_binds {pins : Vector Nat n} (h : pinFault? pins.toList = none) :
    n ≤ pinSpace := by
  simpa using length_le_pinSpace h

/-- **Entries of a configuration.** The pin of each channel has the entry of that channel, whatever
the table held before. -/
theorem table_listen {pins : Vector Nat n} (h : pinFault? pins.toList = none) (c : Counters n)
    (channel : Fin n) : (c.listen pins).table[pins.get channel]? = some (entryOf channel) := by
  obtain ⟨hlt, hd⟩ := (pinFault?_eq_none_iff _).mp h
  apply table_assignAll_of_mem
  · rwa [List.zipIdx_map_fst]
  · rw [List.mk_mem_zipIdx_iff_getElem?]
    simp [Vector.get]
  · exact hlt _ (by simp [Vector.get])

/-- A pin that no channel has is free after a configuration, whatever the table held before:
`(c.listen pins).table[pin]? = some unbound`. -/
theorem table_listen_of_notMem {pins : Vector Nat n} {pin : Nat} (h : pin ∉ pins)
    (hp : pin < pinSpace) (c : Counters n) : (c.listen pins).table[pin]? = some unbound := by
  rw [listen, table_assignAll_of_notMem]
  · simp [release, hp]
  · rw [List.zipIdx_map_fst]
    simpa using h

/-- **Bindings of a configuration.** A pin is bound to a channel exactly when it is the pin that
the configuration has for that channel. -/
theorem bound?_listen_eq_some_iff {pins : Vector Nat n} (h : pinFault? pins.toList = none)
    (c : Counters n) (pin channel : Nat) :
    (c.listen pins).bound? pin = some channel ↔ pins[channel]? = some pin := by
  have hn := le_pinSpace_of_binds h
  have hbound (i : Fin n) : (c.listen pins).bound? (pins.get i) = some i.val :=
    bound?_of_entryOf (by omega) (table_listen h c i)
  constructor
  · intro hb
    by_cases hmem : pin ∈ pins
    · obtain ⟨i, hi, rfl⟩ := Vector.getElem_of_mem hmem
      rw [show channel = i from Option.some.inj (hb.symm.trans (hbound ⟨i, hi⟩))]
      exact Vector.getElem?_eq_getElem hi
    · by_cases hp : pin < pinSpace
      · rw [bound?_of_unbound (table_listen_of_notMem hmem hp c)] at hb
        exact absurd hb (by simp)
      · rw [bound?_of_le _ (Nat.not_lt.mp hp)] at hb
        exact absurd hb (by simp)
  · intro hb
    obtain ⟨hc, rfl⟩ := Vector.getElem?_eq_some_iff.mp hb
    exact hbound ⟨channel, hc⟩

/-- A configuration starts every count at zero: `(c.listen pins).counts.get channel = 0`. -/
theorem counts_listen (c : Counters n) (pins : Vector Nat n) (channel : Fin n) :
    (c.listen pins).counts.get channel = 0 := by
  rw [listen, counts_assignAll, if_pos]
  simp [List.zipIdx_map_snd]

/-! ## Edges -/

/-- Where the table has no channel out of range, both ways to look a pin up agree. -/
theorem channel?_eq_some_iff (c : Counters n) (pin : Nat) (channel : Fin n) :
    c.channel? pin = some channel ↔ c.bound? pin = some channel.val := by
  unfold channel?
  cases c.bound? pin with
  | none => simp
  | some number =>
    rw [Option.bind_some, Option.some.injEq]
    by_cases h : number < n
    · simp [h, Fin.ext_iff]
    · rw [dif_neg h]
      simp only [reduceCtorEq, false_iff]
      rintro rfl
      exact h channel.isLt

/-- **One edge.** It adds one to the count of the channel that its pin is bound to, and nothing to
the others. -/
theorem counts_edge (c : Counters n) (pin : Nat) (channel : Fin n) :
    (c.edge pin).counts.get channel =
      c.counts.get channel + if c.bound? pin = some channel.val then 1 else 0 := by
  cases h : c.channel? pin with
  | none =>
    have hb : c.bound? pin ≠ some channel.val := by
      rw [Ne, ← channel?_eq_some_iff, h]
      simp
    rw [edge_of_channel?_eq_none h, if_neg hb, UInt32.add_zero]
  | some other =>
    rw [edge_of_channel?_eq_some h, (channel?_eq_some_iff c pin other).mp h]
    refine (Vector.getElem_set other.isLt channel.isLt).trans ?_
    by_cases heq : other = channel
    · subst heq
      rw [if_pos rfl, if_pos rfl]
      rfl
    · have hne : other.val ≠ channel.val := Fin.val_ne_of_ne heq
      rw [if_neg hne, if_neg (by simpa using hne), UInt32.add_zero]
      rfl

/-- An edge on a pin without a channel changes nothing: `c.edge pin = c`. -/
theorem edge_of_bound?_eq_none {c : Counters n} {pin : Nat} (h : c.bound? pin = none) :
    c.edge pin = c := by
  apply edge_of_channel?_eq_none
  simp [channel?, h]

/-! ## Counters after a history -/

/-- **The table after a history.** A pin is bound to a channel exactly when the last configuration
that was taken over gave it to that channel. -/
theorem bound?_after_eq_some_iff (history : List (Event n)) (pin channel : Nat) :
    ((empty : Counters n).after history).bound? pin = some channel ↔
      ∃ pins, configured? history = some pins ∧ pins[channel]? = some pin := by
  induction history using List.reverseRecOn with
  | nil =>
    have h : (empty : Counters n).bound? pin = none := by
      simp [bound?, empty, Vector.getElem?_replicate]
      grind
    simp [h, configured?]
  | append_singleton history event ih =>
    rw [after_concat]
    cases event with
    | configure pins =>
      by_cases h : pinFault? pins.toList = none
      · have hb : (Event.configure pins).binds? = some pins := if_pos h
        rw [respond, configure_of_binds h, bound?_listen_eq_some_iff h,
          configured?_concat_of_binds hb]
        simp
      · have hb : (Event.configure pins).binds? = none := if_neg h
        rw [respond, configure_of_fault h, configured?_concat_of_binds_eq_none hb, ih]
    | edge other =>
      rw [respond, bound?_congr (table_edge _ other),
        configured?_concat_of_binds_eq_none rfl, ih]

/-- The same for a channel that there is. -/
theorem bound?_after_iff_any (history : List (Event n)) (pin : Nat) (channel : Fin n) :
    ((empty : Counters n).after history).bound? pin = some channel.val ↔
      (configured? history).any (fun pins => pins.get channel = pin) = true := by
  rw [bound?_after_eq_some_iff]
  cases configured? history <;> simp [Vector.get]

/-- **The counts after a history.** Each counter stands at the edges on its pin since the last
configuration that was taken over, cut to 32 bits. -/
theorem counts_after (history : List (Event n)) (channel : Fin n) :
    ((empty : Counters n).after history).counts.get channel =
      UInt32.ofNat (pulses history channel) := by
  induction history using List.reverseRecOn with
  | nil => simp [empty, pulses, configured?, Vector.get]
  | append_singleton history event ih =>
    rw [after_concat]
    cases event with
    | configure pins =>
      by_cases h : pinFault? pins.toList = none
      · have hb : (Event.configure pins).binds? = some pins := if_pos h
        rw [respond, configure_of_binds h, counts_listen, pulses_concat_of_binds hb]
        rfl
      · have hb : (Event.configure pins).binds? = none := if_neg h
        rw [respond, configure_of_fault h, pulses_concat_configure hb, ih]
    | edge pin =>
      rw [respond, counts_edge, pulses_concat_edge, UInt32.ofNat_add, ih]
      -- the table and the history agree on whether the pin is the channel's
      have hiff := bound?_after_iff_any history pin channel
      by_cases hb : ((empty : Counters n).after history).bound? pin = some channel.val
      · rw [if_pos hb, if_pos (hiff.mp hb)]
        rfl
      · rw [if_neg hb, if_neg (mt hiff.mpr hb)]
        rfl

/-- The pins of a configuration that was taken over have no fault:
`pinFault? pins.toList = none`. -/
theorem pinFault?_of_configured {history : List (Event n)} {pins : Vector Nat n}
    (h : configured? history = some pins) : pinFault? pins.toList = none := by
  obtain ⟨event, -, he⟩ := List.mem_filterMap.mp (List.mem_of_getLast? h)
  cases event with
  | configure other =>
    by_cases hf : pinFault? other.toList = none
    · simp only [Event.binds?, if_pos hf, Option.some.injEq] at he
      exact he ▸ hf
    · simp [Event.binds?, if_neg hf] at he
  | edge pin => simp [Event.binds?] at he

/-- A counter that exists is read as it stands:
`c.count? channel.val = some (c.counts.get channel)`. -/
theorem count?_val (c : Counters n) (channel : Fin n) :
    c.count? channel.val = some (c.counts.get channel) :=
  Vector.getElem?_eq_getElem channel.isLt

/-! ## Representation -/

/-- **What counters stand for.** Everything that counters show after a history, in terms of the
history alone. -/
structure Represents (c : Counters n) (history : List (Event n)) : Prop where
  /-- A pin is bound to a channel exactly when the last configuration that was taken over gave it
  to that channel. -/
  bound?_eq_some_iff (pin channel : Nat) : c.bound? pin = some channel ↔
    ∃ pins, configured? history = some pins ∧ pins[channel]? = some pin
  /-- The channel that an edge is counted on is the one that the pin is bound to. -/
  channel?_eq (pin : Nat) : (c.channel? pin).map Fin.val = c.bound? pin
  /-- Between the channels and the pins that are bound there is a bijection. -/
  bijOn (pins : Vector Nat n) (h : configured? history = some pins) :
    Set.BijOn (fun channel : Fin n => pins.get channel) Set.univ {pin | (c.bound? pin).isSome}
  /-- The entry of a channel's pin is the channel's number plus one, without overflow. -/
  toNat_entry (pins : Vector Nat n) (h : configured? history = some pins) (channel : Fin n) :
    (c.table[pins.get channel]?).map UInt8.toNat = some (channel.val + 1)
  /-- No entry is larger than the number of channels. -/
  entry_le (pin : Fin pinSpace) : c.table[pin].toNat ≤ n
  /-- Reading one counter gives its count, -/
  count?_eq (channel : Fin n) : c.count? channel.val = some (c.counts.get channel)
  /-- and reading all of them gives the same. -/
  count?_eq_snapshot (channel : Fin n) : c.count? channel.val = some (c.snapshot.get channel)
  /-- A counter stands at the edges on its pin since the last configuration that was taken over,
  modulo the range of a counter. -/
  toNat_count (channel : Fin n) :
    (c.counts.get channel).toNat = pulses history channel % UInt32.size
  /-- An edge on a pin that was not configured changes nothing. -/
  edge_of_notMem (pin : Nat) (h : ∀ pins, configured? history = some pins → pin ∉ pins) :
    c.edge pin = c
  /-- An edge on a pin out of range changes nothing. -/
  edge_of_le (pin : Nat) (h : pinSpace ≤ pin) : c.edge pin = c
  /-- With more channels than pins every configuration is refused, and nothing is counted. -/
  crowded (h : pinSpace < n) : (∀ pins, (c.configure pins).fault ≠ none) ∧
    ∀ channel : Fin n, c.counts.get channel = 0

/-- A pin that is bound to a channel has the channel's number plus one for its entry:
`(c.table[pin]?).map UInt8.toNat = some (channel + 1)`. -/
theorem toNat_entry_of_bound? {c : Counters n} {pin channel : Nat}
    (h : c.bound? pin = some channel) :
    (c.table[pin]?).map UInt8.toNat = some (channel + 1) := by
  unfold bound? at h
  cases hc : c.table[pin]? with
  | none => simp [hc] at h
  | some entry =>
    by_cases he : entry = unbound
    · simp [hc, he] at h
    · have hpos : entry.toNat ≠ 0 := fun h0 => he (UInt8.toNat_inj.mp h0)
      simp only [hc, if_neg he, Option.some.injEq] at h
      rw [Option.map_some, Option.some.injEq]
      omega

section

variable {c : Counters n} (hlt : ∀ {pin channel : Nat}, c.bound? pin = some channel → channel < n)

include hlt

/-- Entries of a table that binds pins to channels are at most the number of channels:
`c.table[pin].toNat ≤ n`. -/
theorem entry_le_of_bound?_lt (pin : Fin pinSpace) : c.table[pin].toNat ≤ n := by
  by_cases he : c.table[pin] = unbound
  · rw [he]
    exact Nat.zero_le n
  · have hb : c.bound? pin.val = some (c.table[pin].toNat - 1) := by
      simpa [bound?] using he
    have := hlt hb
    omega

/-- A table that binds pins to channels only is read alike with and without a check of the range:
`(c.channel? pin).map Fin.val = c.bound? pin`. -/
theorem map_val_channel? (pin : Nat) : (c.channel? pin).map Fin.val = c.bound? pin := by
  cases h : c.bound? pin with
  | none => simp [channel?, h]
  | some channel => simp [channel?, h, hlt h]

end

section

variable {history : List (Event n)} {pins : Vector Nat n} (h : configured? history = some pins)

include h

/-- The pin of each channel is bound to it. -/
theorem bound?_after_getElem (channel : Fin n) :
    ((empty : Counters n).after history).bound? (pins.get channel) = some channel.val :=
  (bound?_after_eq_some_iff history _ _).mpr ⟨pins, h, by simp [Vector.get]⟩

/-- **A bijection.** The channels and the bound pins correspond to each other. -/
theorem bijOn_bound_pins :
    Set.BijOn (fun channel : Fin n => pins.get channel) Set.univ
      {pin | (((empty : Counters n).after history).bound? pin).isSome} := by
  refine ⟨?_, ?_, ?_⟩
  · intro channel _
    rw [Set.mem_ofPred_eq, bound?_after_getElem h channel]
    rfl
  · -- a pin is bound to one channel only
    intro first _ second _ heq
    have hf := bound?_after_getElem h first
    rw [show pins.get first = pins.get second from heq, bound?_after_getElem h second] at hf
    exact Fin.ext (Option.some.inj hf).symm
  · intro pin hp
    obtain ⟨channel, hc⟩ := Option.isSome_iff_exists.mp hp
    obtain ⟨other, ho, hpin⟩ := (bound?_after_eq_some_iff history pin channel).mp hc
    obtain rfl := Option.some.inj (ho.symm.trans h)
    obtain ⟨hlt, rfl⟩ := Vector.getElem?_eq_some_iff.mp hpin
    exact ⟨⟨channel, hlt⟩, Set.mem_univ _, rfl⟩

end

/-- A pin that was not configured has no channel:
`((empty : Counters n).after history).bound? pin = none`. -/
theorem bound?_after_of_notMem {history : List (Event n)} {pin : Nat}
    (h : ∀ pins, configured? history = some pins → pin ∉ pins) :
    ((empty : Counters n).after history).bound? pin = none := by
  rw [Option.eq_none_iff_forall_ne_some]
  intro channel hb
  obtain ⟨pins, hc, hp⟩ := (bound?_after_eq_some_iff history pin channel).mp hb
  exact h pins hc (Vector.mem_of_getElem? hp)

/-- With more channels than pins no history counts anything: `pulses history channel = 0`. -/
theorem pulses_of_crowded (hn : pinSpace < n) (history : List (Event n)) (channel : Fin n) :
    pulses history channel = 0 := by
  have hc : configured? history = none := by
    rw [Option.eq_none_iff_forall_ne_some]
    intro pins h
    exact absurd (le_pinSpace_of_binds (pinFault?_of_configured h)) (Nat.not_le.mpr hn)
  simp [pulses, hc]

/-- **Counters after any history.** However configurations, taken over or refused, and edges
follow each other, the counters stand for that history. -/
theorem represents_after (history : List (Event n)) :
    Represents ((empty : Counters n).after history) history := by
  have hlt {pin channel : Nat}
      (h : ((empty : Counters n).after history).bound? pin = some channel) : channel < n := by
    obtain ⟨pins, -, hp⟩ := (bound?_after_eq_some_iff history pin channel).mp h
    exact (Vector.getElem?_eq_some_iff.mp hp).1
  constructor
  case bound?_eq_some_iff => exact bound?_after_eq_some_iff history
  case channel?_eq => exact map_val_channel? hlt
  case bijOn =>
    intro pins h
    exact bijOn_bound_pins h
  case toNat_entry =>
    intro pins h channel
    exact toNat_entry_of_bound? (bound?_after_getElem h channel)
  case entry_le => exact entry_le_of_bound?_lt hlt
  case count?_eq => exact count?_val _
  case count?_eq_snapshot =>
    intro channel
    rw [snapshot_eq, count?_val]
  case toNat_count =>
    intro channel
    rw [counts_after, UInt32.toNat_ofNat']
  case edge_of_notMem =>
    intro pin h
    exact edge_of_bound?_eq_none (bound?_after_of_notMem h)
  case edge_of_le =>
    intro pin h
    exact edge_of_bound?_eq_none (bound?_of_le _ h)
  case crowded =>
    intro hn
    refine ⟨?_, ?_⟩
    · intro pins hfault
      rw [fault_configure] at hfault
      exact absurd (le_pinSpace_of_binds hfault) (Nat.not_le.mpr hn)
    · intro channel
      rw [counts_after, pulses_of_crowded hn]
      rfl

end Tachometer.Counters
