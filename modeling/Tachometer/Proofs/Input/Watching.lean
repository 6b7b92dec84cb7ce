import Mathlib.Algebra.BigOperators.Group.List.Basic
import Mathlib.Data.Bool.Count
import Mathlib.Data.List.Count
import Tachometer.Input.Watch
import Tachometer.Proofs.Input.Binding

/-! # What watches count

A watch waits for the edges of its kind, so a signal is for it a row of edges on its pin. Several
watches together are one such row, and a counter stands at the edges on its own pin.

* `Counters.counts_edges` — what a row of edges on any pins adds to a counter.
* `Watch.run_of_wait`, `Watch.run_of_notMem` — a watch waits for the next edge of its kind, for
  ever if there is none.
* `Watch.foldl_actions` — the actions of a watch lead to the counters of its run.
* `Watch.run_eq_edges` — a watch counts the edges of its kind.
* `Watched`, `Counters.watch_eq_edges` — several watches, one after the other.
* `count_le_count_add_one` — in a signal that alternates, both kinds of edges are as many as the
  other, give or take one. -/

namespace Tachometer

variable {n : Nat}

/-! ## Rows of edges -/

namespace Counters

/-- Edges do not change which pins have channels: `(c.edges pins).table = c.table`. -/
@[simp] theorem table_edges (c : Counters n) (pins : List Nat) :
    (c.edges pins).table = c.table := by
  induction pins generalizing c with
  | nil => rfl
  | cons pin pins ih => rw [edges_cons, ih, table_edge]

/-- Edges are counted in order: `c.edges (first ++ second) = (c.edges first).edges second`. -/
theorem edges_append (c : Counters n) (first second : List Nat) :
    c.edges (first ++ second) = (c.edges first).edges second := by
  simp [edges]

/-- **A row of edges** adds to a counter as many as are on pins of its channel. -/
theorem counts_edges (c : Counters n) (pins : List Nat) (channel : Fin n) :
    (c.edges pins).counts.get channel =
      c.counts.get channel + .ofNat (pins.countP fun pin => c.bound? pin = some channel.val) := by
  induction pins generalizing c with
  | nil => simp
  | cons pin pins ih =>
    -- edges change no binding, so all are counted by those of the start
    have hbound (other : Nat) : (c.edge pin).bound? other = c.bound? other :=
      bound?_congr (c.table_edge pin) other
    rw [edges_cons, ih, counts_edge, List.countP_cons, UInt32.add_assoc]
    simp only [hbound, decide_eq_true_eq]
    split
    · rw [UInt32.add_comm 1, UInt32.ofNat_add]
      rfl
    · rw [UInt32.zero_add, Nat.add_zero]

/-- Edges on pins without a channel change nothing: `c.edges pins = c`. -/
theorem edges_of_bound?_eq_none {c : Counters n} {pins : List Nat}
    (h : ∀ pin ∈ pins, c.bound? pin = none) : c.edges pins = c := by
  induction pins with
  | nil => rfl
  | cons pin pins ih =>
    rw [edges_cons, edge_of_bound?_eq_none (h pin List.mem_cons_self)]
    exact ih fun other hother => h other (List.mem_cons_of_mem pin hother)

/-- The order of edges does not matter: `c.edges pins = c.edges pins'`. -/
theorem edges_perm {pins pins' : List Nat} (h : pins.Perm pins') (c : Counters n) :
    c.edges pins = c.edges pins' := by
  have hcounts : (c.edges pins).counts = (c.edges pins').counts := Vector.ext fun channel hlt => by
    have hcount := h.countP_eq fun pin => c.bound? pin = some channel
    have hleft := c.counts_edges pins ⟨channel, hlt⟩
    have hright := c.counts_edges pins' ⟨channel, hlt⟩
    rw [hcount, ← hright] at hleft
    exact hleft
  calc c.edges pins
      = ⟨(c.edges pins).table, (c.edges pins).counts⟩ := rfl
    _ = ⟨(c.edges pins').table, (c.edges pins').counts⟩ := by
      rw [hcounts, table_edges, table_edges]
    _ = c.edges pins' := rfl

end Counters

/-! ## One watch -/

namespace Watch

/-- **Waiting.** A watch lets changes pass that are not of its kind, counts the next one that is,
and goes on behind it. -/
theorem run_of_wait (w : Watch) (c : Counters n) {waited : List Edge} (h : w.edge ∉ waited)
    (rest : List Edge) :
    w.run c (waited ++ w.edge :: rest) = w.run (c.edge w.pin) rest := by
  induction waited with
  | nil => simp [see]
  | cons change waited ih =>
    obtain ⟨hne, hwaited⟩ := not_or.mp (mt List.mem_cons.mpr h)
    rw [List.cons_append, run_cons, see, if_neg (Ne.symm hne), ih hwaited]

/-- Where there is none of its kind it waits to the end: `w.run c signal = c`. -/
theorem run_of_notMem (w : Watch) (c : Counters n) {signal : List Edge} (h : w.edge ∉ signal) :
    w.run c signal = c := by
  induction signal with
  | nil => rfl
  | cons change signal ih =>
    obtain ⟨hne, hsignal⟩ := not_or.mp (mt List.mem_cons.mpr h)
    rw [run_cons, see, if_neg (Ne.symm hne), ih hsignal]

/-- The counters after the response to a change are those after the change was seen:
`(w.respond change).foldl Action.apply c = w.see c change`. -/
theorem foldl_respond (w : Watch) (c : Counters n) (change : Edge) :
    (w.respond change).foldl Action.apply c = w.see c change := by
  unfold respond see
  split <;> rfl

/-- **Actions.** What a watch does, done to the counters one action after the other, leads to those
of its run: `(w.actions signal).foldl Action.apply c = w.run c signal`. -/
theorem foldl_actions (w : Watch) (c : Counters n) (signal : List Edge) :
    (w.actions signal).foldl Action.apply c = w.run c signal := by
  rw [actions, List.foldl_append]
  -- the set-up comes first and counts nothing
  show (signal.flatMap w.respond).foldl Action.apply c = w.run c signal
  induction signal generalizing c with
  | nil => rfl
  | cons change signal ih => rw [List.flatMap_cons, List.foldl_append, foldl_respond, ih, run_cons]

/-- After its set-up a watch does nothing but count, once for each edge of its kind:
`signal.flatMap w.respond = (List.replicate (signal.count w.edge) w.pin).map .count`. -/
theorem flatMap_respond (w : Watch) (signal : List Edge) :
    signal.flatMap w.respond = (List.replicate (signal.count w.edge) w.pin).map .count := by
  induction signal with
  | nil => rfl
  | cons change signal ih =>
    rw [List.flatMap_cons, ih, respond]
    by_cases h : change = w.edge
    · rw [if_pos h, h, List.count_cons_self, List.replicate_succ, List.map_cons,
        List.singleton_append]
    · rw [if_neg h, List.count_cons_of_ne h, List.nil_append]

/-- What a watch does in all: it sets up its pin as an input with a pull-up, and then it counts. -/
theorem actions_eq (w : Watch) (signal : List Edge) :
    w.actions signal = .setUp (.inputPullUp w.pin) ::
      (List.replicate (signal.count w.edge) w.pin).map .count := by
  rw [actions, flatMap_respond]
  rfl

/-- **Counting.** A signal is for a watch the row of edges of its kind. -/
theorem run_eq_edges (w : Watch) (c : Counters n) (signal : List Edge) :
    w.run c signal = c.edges (List.replicate (signal.count w.edge) w.pin) := by
  rw [← foldl_actions, actions_eq, List.foldl_cons]
  exact List.foldl_map

end Watch

/-! ## Several watches -/

/-- A pin that was watched for a channel, and what was to be seen there. -/
structure Watched where
  /-- The pin. -/
  pin : Nat
  /-- The channel, which says what kind of edge counts. -/
  channel : Nat
  /-- The changes of the level on the pin, oldest first. -/
  signal : List Edge
  deriving DecidableEq, Repr

namespace Watched

/-- The watch. -/
def watch (w : Watched) : Watch := ⟨w.pin, countedEdge w.channel⟩

/-- The number of edges that count. -/
def pulses (w : Watched) : Nat := w.signal.count (countedEdge w.channel)

/-- The edges that count, each as the pin that it is on. -/
def edges (w : Watched) : List Nat := List.replicate w.pulses w.pin

/-- The edges that count on one pin in all. -/
def pulsesOn (pin : Nat) (all : List Watched) : Nat :=
  ((all.filter fun w => w.pin = pin).map pulses).sum

/-- Among the edges of all watches those on one pin are counted by its own watches:
`(all.flatMap edges).count pin = pulsesOn pin all`. -/
theorem count_flatMap_edges (pin : Nat) (all : List Watched) :
    (all.flatMap edges).count pin = pulsesOn pin all := by
  induction all with
  | nil => rfl
  | cons w all ih =>
    rw [List.flatMap_cons, List.count_append, ih, edges, List.count_replicate]
    by_cases h : w.pin = pin
    · simp [pulsesOn, h]
    · simp [pulsesOn, h]

end Watched

/-- The counters after several watches, one after the other. -/
def Counters.watch (c : Counters n) (all : List Watched) : Counters n :=
  all.foldl (fun c w => w.watch.run c w.signal) c

/-- **Several watches** count the edges of them all:
`c.watch all = c.edges (all.flatMap Watched.edges)`. -/
theorem Counters.watch_eq_edges (c : Counters n) (all : List Watched) :
    c.watch all = c.edges (all.flatMap Watched.edges) := by
  induction all generalizing c with
  | nil => rfl
  | cons w all ih =>
    rw [List.flatMap_cons, edges_append, ← ih]
    exact congrArg (watch · all) (w.watch.run_eq_edges c w.signal)

/-! ## Signals that alternate -/

/-- Whether an edge is a rising one. -/
def Edge.isRising : Edge → Bool
  | .rising => true
  | .falling => false

/-- Edges of the same direction are the same. -/
theorem Edge.isRising_injective : Function.Injective isRising
  | .rising, .rising, _ => rfl
  | .falling, .falling, _ => rfl

/-- **Alternation.** In a signal that alternates there is at most one edge of a kind more than of
the other: `signal.count a ≤ signal.count b + 1`. -/
theorem count_le_count_add_one {signal : List Edge} (h : signal.IsChain (· ≠ ·)) (a b : Edge) :
    signal.count a ≤ signal.count b + 1 := by
  have hchain : (signal.map Edge.isRising).IsChain (· ≠ ·) :=
    List.isChain_map_of_isChain _ (fun _ _ hne => Edge.isRising_injective.ne hne) h
  have hcount (edge : Edge) :
      (signal.map Edge.isRising).count edge.isRising = signal.count edge :=
    List.count_map_of_injective _ _ Edge.isRising_injective _
  by_cases hab : a = b
  · rw [hab]
    exact Nat.le_succ _
  · have hnot : a.isRising = !b.isRising := by
      match a, b, hab with
      | .rising, .falling, _ | .falling, .rising, _ => rfl
    rw [← hcount a, ← hcount b, hnot]
    exact hchain.count_not_le_count_add_one b.isRising

end Tachometer
