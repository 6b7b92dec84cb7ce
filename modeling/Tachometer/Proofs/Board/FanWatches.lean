import Tachometer.Board.Layout
import Tachometer.Proofs.Input.Watching

/-! # The watches of the board's fans

The pin of a watch says which counter it counts on, and its channel, given apart, which edges it
counts. The two need not fit: the pin alone decides where, and the channel alone what.

* `Board.listening` — the board's counters, at any counts.
* `Board.channel?_listening_iff` — the fan of each pin.
* `Board.Watches`, `Board.watches` — what the watches of the board's fans count, alone and
  together. -/

namespace Tachometer.Board

/-- The counters that listen on the board's pins, at given counts. -/
def listening (counts : Vector UInt32 fanCount) : Counters fanCount :=
  { (Counters.empty.configure inputPins).counters with counts }

/-- The channel of a pin is its place among the board's pins:
`(listening counts).bound? pin = some channel ↔ inputPins[channel]? = some pin`. -/
theorem bound?_listening_eq_some_iff (counts : Vector UInt32 fanCount) (pin channel : Nat) :
    (listening counts).bound? pin = some channel ↔ inputPins[channel]? = some pin := by
  rw [← Counters.bound?_listen_eq_some_iff pinFault?_inputPins .empty]
  rfl

/-- A fan's counter is counted on by edges on the fan's pin. -/
theorem bound?_listening_iff (counts : Vector UInt32 fanCount) (pin : Nat) (fan : Fin fanCount) :
    (listening counts).bound? pin = some fan.val ↔ pin = inputPins.get fan := by
  rw [bound?_listening_eq_some_iff]
  simp [Vector.get, eq_comm]

/-- A fan's counter is found by the fan's pin and no other:
`(listening counts).channel? pin = some fan ↔ pin = inputPins.get fan`. -/
theorem channel?_listening_iff (counts : Vector UInt32 fanCount) (pin : Nat) (fan : Fin fanCount) :
    (listening counts).channel? pin = some fan ↔ pin = inputPins.get fan := by
  rw [Counters.channel?_eq_some_iff, bound?_listening_iff]

/-- Nothing but a fan is bound to a pin. -/
theorem bound?_listening_eq_none (counts : Vector UInt32 fanCount) {pin : Nat}
    (h : (listening counts).channel? pin = none) : (listening counts).bound? pin = none := by
  rw [Option.eq_none_iff_forall_ne_some]
  intro channel hsome
  have hlt := (Vector.getElem?_eq_some_iff.mp
    ((bound?_listening_eq_some_iff counts pin channel).mp hsome)).1
  have hfan := (Counters.channel?_eq_some_iff _ pin ⟨channel, hlt⟩).mpr hsome
  exact absurd (h.symm.trans hfan) (by simp)

/-- Counters that listen on the board's pins still do after any edges. -/
theorem edges_listening (counts : Vector UInt32 fanCount) (pins : List Nat) :
    (listening counts).edges pins = listening ((listening counts).edges pins).counts :=
  calc (listening counts).edges pins
      = ⟨((listening counts).edges pins).table, ((listening counts).edges pins).counts⟩ := rfl
    _ = listening ((listening counts).edges pins).counts := by
      rw [Counters.table_edges]
      rfl

/-- **Edges on the board's pins** are counted on the fan that each pin belongs to. -/
theorem toNat_counts_edges_listening (counts : Vector UInt32 fanCount) (pins : List Nat)
    (fan : Fin fanCount) :
    (((listening counts).edges pins).counts.get fan).toNat =
      ((counts.get fan).toNat + pins.count (inputPins.get fan)) % 2 ^ 32 := by
  have hcount : pins.countP (fun pin => (listening counts).bound? pin = some fan.val) =
      pins.count (inputPins.get fan) :=
    List.countP_congr fun pin _ => by simp [bound?_listening_iff]
  rw [Counters.counts_edges, hcount, UInt32.toNat_add, UInt32.toNat_ofNat', Nat.add_mod_mod]
  rfl

/-- The channel of a watch says what it counts: falling edges for the first, rising ones for the
others. -/
theorem pulses_eq (w : Watched) :
    w.pulses = if w.channel = 0 then w.signal.count .falling else w.signal.count .rising := by
  unfold Watched.pulses countedEdge
  split <;> rfl

/-- What watches of the board's pins count, from given counts on. -/
structure Watches (counts : Vector UInt32 fanCount) : Prop where
  /-- The counter of a fan is found by the fan's pin. -/
  channel?_iff : ∀ (pin : Nat) (fan : Fin fanCount),
    (listening counts).channel? pin = some fan ↔ pin = inputPins.get fan
  /-- A watch adds to the counter of its pin the falling edges if it is for the first channel, and
  the rising ones otherwise. -/
  own : ∀ (w : Watched) (fan : Fin fanCount), (listening counts).channel? w.pin = some fan →
    ((w.watch.run (listening counts) w.signal).counts.get fan).toNat = ((counts.get fan).toNat +
      if w.channel = 0 then w.signal.count .falling else w.signal.count .rising) % 2 ^ 32
  /-- It changes no other counter, -/
  others : ∀ (w : Watched) (fan : Fin fanCount), (listening counts).channel? w.pin ≠ some fan →
    (w.watch.run (listening counts) w.signal).counts.get fan = counts.get fan
  /-- nor the pins that the counters listen on, -/
  listens : ∀ w : Watched, ∃ counts', w.watch.run (listening counts) w.signal = listening counts'
  /-- and if no fan has its pin it changes nothing. -/
  unbound : ∀ w : Watched, (listening counts).channel? w.pin = none →
    w.watch.run (listening counts) w.signal = listening counts
  /-- It lets pass what it does not count, for ever if there is nothing else, or counts the next
  edge that it does and goes on behind it. -/
  waits : ∀ (w : Watched) (waited rest : List Edge), w.watch.edge ∉ waited →
    w.watch.run (listening counts) waited = listening counts ∧
      w.watch.run (listening counts) (waited ++ w.watch.edge :: rest) =
        w.watch.run ((listening counts).edge w.pin) rest
  /-- Several watches in a row add to a counter what is counted on its pin in all. -/
  total : ∀ (all : List Watched) (fan : Fin fanCount),
    (((listening counts).watch all).counts.get fan).toNat =
      ((counts.get fan).toNat + Watched.pulsesOn (inputPins.get fan) all) % 2 ^ 32
  /-- In another order they count the same. -/
  perm : ∀ all all' : List Watched, all.Perm all' →
    (listening counts).watch all = (listening counts).watch all'
  /-- Each sets up its pin once, as an input with a pull-up. -/
  setups : ∀ all : List Watched,
    all.flatMap (fun w => w.watch.setup) = all.map fun w => .inputPullUp w.pin
  /-- It does so before anything else, then it counts, and that is all: done one after the other,
  these actions lead to the counters of its run. -/
  course : ∀ w : Watched,
    w.watch.actions w.signal = .setUp (.inputPullUp w.pin) :: w.edges.map .count ∧
      (w.watch.actions w.signal).foldl Watch.Action.apply (listening counts) =
        w.watch.run (listening counts) w.signal
  /-- In a signal that alternates there are as many rising edges as falling ones, give or take
  one, -/
  alternating : ∀ signal : List Edge, signal.IsChain (· ≠ ·) →
    signal.count .rising ≤ signal.count .falling + 1 ∧
      signal.count .falling ≤ signal.count .rising + 1
  /-- so that watches of one pin for different channels count alike, give or take one. -/
  alike : ∀ w w' : Watched, w.signal = w'.signal → w.signal.IsChain (· ≠ ·) →
    w.pulses ≤ w'.pulses + 1

/-- **Watching the board's pins.** At any counts, on any pins, for any channels and any signals. -/
theorem watches (counts : Vector UInt32 fanCount) : Watches counts := by
  have hrun (w : Watched) :
      w.watch.run (listening counts) w.signal = (listening counts).edges w.edges :=
    w.watch.run_eq_edges _ w.signal
  constructor
  case channel?_iff => exact channel?_listening_iff counts
  case own =>
    intro w fan hfan
    have hpin := (channel?_listening_iff counts w.pin fan).mp hfan
    rw [hrun, toNat_counts_edges_listening, Watched.edges, hpin, List.count_replicate_self,
      pulses_eq]
  case others =>
    intro w fan hfan
    have hpin := mt (channel?_listening_iff counts w.pin fan).mpr hfan
    rw [← UInt32.toNat_inj, hrun, toNat_counts_edges_listening, Watched.edges,
      List.count_replicate, if_neg (by simpa using hpin), Nat.add_zero]
    exact Nat.mod_eq_of_lt (counts.get fan).toNat_lt
  case listens =>
    intro w
    exact ⟨_, (hrun w).trans (edges_listening counts _)⟩
  case unbound =>
    intro w hnone
    rw [hrun]
    refine Counters.edges_of_bound?_eq_none fun pin hpin => ?_
    rw [List.eq_of_mem_replicate hpin, bound?_listening_eq_none counts hnone]
  case waits =>
    intro w waited rest hwaited
    exact ⟨w.watch.run_of_notMem _ hwaited, w.watch.run_of_wait _ hwaited rest⟩
  case total =>
    intro all fan
    rw [Counters.watch_eq_edges, toNat_counts_edges_listening, Watched.count_flatMap_edges]
  case perm =>
    intro all all' hperm
    rw [Counters.watch_eq_edges, Counters.watch_eq_edges]
    exact Counters.edges_perm (hperm.flatMap_right _) _
  case setups =>
    intro all
    exact List.map_eq_flatMap.symm
  case course =>
    intro w
    exact ⟨w.watch.actions_eq w.signal, w.watch.foldl_actions _ w.signal⟩
  case alternating =>
    intro signal hchain
    exact ⟨count_le_count_add_one hchain _ _, count_le_count_add_one hchain _ _⟩
  case alike =>
    intro w w' hsignal hchain
    unfold Watched.pulses
    rw [← hsignal]
    exact count_le_count_add_one hchain _ _

end Tachometer.Board
