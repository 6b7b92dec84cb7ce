import Tachometer.Proofs.Wave.Generate
import Tachometer.Proofs.Wave.Words

/-! # The wave that the program makes

The program reloads its registers in three cycles and then counts down from the period to zero, in
three cycles a count. At the count that equals the high time the pin goes up, one cycle late, and
it stays up until the next reload pulls it down.

* `Machine.Plays` — a stretch of cycles: the level of the pin in each, and where they lead.
* `Machine.plays_reload`, `Machine.plays_count` — the two blocks of the program.
* `Machine.plays_countdown` — all counts of one period, by induction on the register that counts.
* `Machine.plays_pass`, `Machine.AtPass` — one pass through the program, which leaves the machine
  ready for the next one.
* `Machine.wave_squareWave` — every pass makes the same wave. -/

namespace Tachometer.Wave.Machine

variable {program : Program} {s t u : Machine}

/-! ## Stretches of cycles -/

/-- Cycles come one after the other:
`cycles program (first + second) s = cycles program second (cycles program first s)`. -/
theorem cycles_add (program : Program) (first second : Nat) (s : Machine) :
    cycles program (first + second) s = cycles program second (cycles program first s) := by
  induction first generalizing s with
  | zero => rw [Nat.zero_add]; rfl
  | succ first ih => rw [Nat.succ_add, cycles, cycles, ih]

/-- The levels of more cycles go on where those of fewer end: `wave program (first + second) s =
wave program first s ++ wave program second (cycles program first s)`. -/
theorem wave_add (program : Program) (first second : Nat) (s : Machine) :
    wave program (first + second) s =
      wave program first s ++ wave program second (cycles program first s) := by
  induction first generalizing s with
  | zero => rw [Nat.zero_add]; rfl
  | succ first ih => rw [Nat.succ_add, wave, wave, cycles, ih, List.cons_append]

/-- A stretch of cycles: the levels that the pin has in them, one a cycle, and where they lead. In
between the machine is not at the instruction that the program starts over with. -/
structure Plays (program : Program) (s : Machine) (levels : List PinLevel) (t : Machine) :
    Prop where
  /-- The levels of the pin. -/
  wave_eq : wave program levels.length s = levels
  /-- The machine after the last cycle. -/
  cycles_eq : cycles program levels.length s = t
  /-- The program does not start over before the stretch ends. -/
  next_ne : ∀ count, 0 < count → count < levels.length →
    (cycles program count s).next ≠ program.wrapTarget

/-- **Two stretches** are one, if the program does not start over between them. -/
theorem Plays.trans {first second : List PinLevel} (hst : Plays program s first t)
    (htu : Plays program t second u) (hnext : t.next ≠ program.wrapTarget) :
    Plays program s (first ++ second) u where
  wave_eq := by rw [List.length_append, wave_add, hst.cycles_eq, hst.wave_eq, htu.wave_eq]
  cycles_eq := by rw [List.length_append, cycles_add, hst.cycles_eq, htu.cycles_eq]
  next_ne := by
    intro count hpos hlt
    rw [List.length_append] at hlt
    rcases Nat.lt_or_ge count first.length with h | h
    · exact hst.next_ne count hpos h
    · obtain ⟨rest, rfl⟩ := Nat.exists_eq_add_of_le h
      rw [cycles_add, hst.cycles_eq]
      rcases Nat.eq_zero_or_pos rest with rfl | hrest
      · exact hnext
      · exact htu.next_ne rest hrest (by omega)

/-- One cycle is a stretch. -/
theorem plays_cycle (h : s.cycle program = t) : Plays program s [t.pin] t where
  wave_eq := congrArg (fun t : Machine => [t.pin]) h
  cycles_eq := h
  next_ne := by
    intro count hpos hlt
    exact absurd hlt (Nat.not_lt.mpr hpos)

/-! ## One instruction -/

/-- A running machine executes the instruction that it is at, and is at the following one unless
that was a jump. -/
theorem cycle_eq_execute (hrunning : s.running = true) {i : Instruction}
    (hi : program.instructions[s.next]? = some i) :
    s.cycle program =
      { s with pin := sideLevel s.pin i.side, next := following program s.next }.execute
        i.operation := by
  simp only [cycle, hrunning, ↓reduceIte, hi]

/-- The high time of the next period: the next queued word, or the present one if none is. -/
def highTime (s : Machine) : UInt32 := s.queue.headD s.x

/-- The first instruction takes a high time from the queue, or the present one if none is queued,
and lowers the pin. -/
theorem cycle_pull (hrunning : s.running = true) (hnext : s.next = 0) :
    s.cycle .squareWave =
      { s with queue := s.queue.tail, outputShift := s.highTime, pin := .low, next := 1 } := by
  rw [cycle_eq_execute hrunning (by rw [hnext]; rfl), hnext]
  cases hqueue : s.queue with
  | nil | cons word rest =>
    simp only [execute, highTime, hqueue]
    rfl

/-- The second instruction copies the high time:
`s.cycle .squareWave = { s with x := s.outputShift, next := 2 }`. -/
theorem cycle_takeHighTime (hrunning : s.running = true) (hnext : s.next = 1) :
    s.cycle .squareWave = { s with x := s.outputShift, next := 2 } := by
  rw [cycle_eq_execute hrunning (by rw [hnext]; rfl), hnext]
  rfl

/-- The third instruction copies the period:
`s.cycle .squareWave = { s with y := s.inputShift, next := 3 }`. -/
theorem cycle_takePeriod (hrunning : s.running = true) (hnext : s.next = 2) :
    s.cycle .squareWave = { s with y := s.inputShift, next := 3 } := by
  rw [cycle_eq_execute hrunning (by rw [hnext]; rfl), hnext]
  rfl

/-- The fourth instruction goes on to raise the pin if the count has come to the high time:
`s.cycle .squareWave = { s with next := if s.x = s.y then 4 else 5 }`. -/
theorem cycle_compare (hrunning : s.running = true) (hnext : s.next = 3) :
    s.cycle .squareWave = { s with next := if s.x = s.y then 4 else 5 } := by
  rw [cycle_eq_execute hrunning (by rw [hnext]; rfl), hnext]
  by_cases h : s.x = s.y
  · simp only [execute, meets, tested, h, bne_self_eq_false, Bool.false_eq_true, ↓reduceIte]
    rfl
  · simp only [execute, meets, tested, bne_iff_ne.mpr h, h, ↓reduceIte]
    rfl

/-- The fifth instruction raises the pin:
`s.cycle .squareWave = { s with pin := .high, next := 6 }`. -/
theorem cycle_raise (hrunning : s.running = true) (hnext : s.next = 4) :
    s.cycle .squareWave = { s with pin := .high, next := 6 } := by
  rw [cycle_eq_execute hrunning (by rw [hnext]; rfl), hnext]
  rfl

/-- The sixth instruction does nothing, so that both branches take as long:
`s.cycle .squareWave = { s with next := 6 }`. -/
theorem cycle_idle (hrunning : s.running = true) (hnext : s.next = 5) :
    s.cycle .squareWave = { s with next := 6 } := by
  rw [cycle_eq_execute hrunning (by rw [hnext]; rfl), hnext]
  rfl

/-- The last instruction counts down, and starts over if the count was zero:
`s.cycle .squareWave = { s with y := s.y - 1, next := if s.y = 0 then 0 else 3 }`. -/
theorem cycle_countDown (hrunning : s.running = true) (hnext : s.next = 6) :
    s.cycle .squareWave = { s with y := s.y - 1, next := if s.y = 0 then 0 else 3 } := by
  rw [cycle_eq_execute hrunning (by rw [hnext]; rfl), hnext]
  by_cases h : s.y = 0
  · simp only [execute, meets, tested, h, bne_self_eq_false, Bool.false_eq_true, ↓reduceIte]
    rfl
  · simp only [execute, meets, tested, bne_iff_ne.mpr h, h, ↓reduceIte]
    rfl

/-! ## The blocks of the program -/

/-- The machine when the registers are reloaded for a period. -/
def reloaded (s : Machine) : Machine :=
  { s with
    queue := s.queue.tail, outputShift := s.highTime, x := s.highTime, y := s.inputShift,
    pin := .low, next := 3 }

/-- **The reload** takes three cycles, with the pin low. -/
theorem plays_reload (hrunning : s.running = true) (hnext : s.next = 0) :
    Plays .squareWave s [.low, .low, .low] s.reloaded := by
  have hpull := plays_cycle (cycle_pull hrunning hnext)
  have hhigh := hpull.trans (plays_cycle (cycle_takeHighTime hrunning rfl)) (Nat.succ_ne_zero 0)
  have hperiod := hhigh.trans (plays_cycle (cycle_takePeriod hrunning rfl)) (Nat.succ_ne_zero 1)
  exact hperiod

/-- The machine after one count: the pin goes up if the high time begins, and the program starts
over after the last count. -/
def counted (s : Machine) : Machine :=
  { s with
    y := s.y - 1, pin := if s.x = s.y then .high else s.pin, next := if s.y = 0 then 0 else 3 }

/-- **One count** takes three cycles, whether or not it is the one that the pin goes up at. -/
theorem plays_count (hrunning : s.running = true) (hnext : s.next = 3) :
    Plays .squareWave s [s.pin, s.counted.pin, s.counted.pin] s.counted := by
  have hcompare := cycle_compare hrunning hnext
  unfold counted
  by_cases h : s.x = s.y
  · rw [if_pos h] at hcompare ⊢
    have hraise := (plays_cycle hcompare).trans (plays_cycle (cycle_raise hrunning rfl))
      (Nat.succ_ne_zero 3)
    exact hraise.trans (plays_cycle (cycle_countDown hrunning rfl)) (Nat.succ_ne_zero 5)
  · rw [if_neg h] at hcompare ⊢
    have hidle := (plays_cycle hcompare).trans (plays_cycle (cycle_idle hrunning rfl))
      (Nat.succ_ne_zero 4)
    exact hidle.trans (plays_cycle (cycle_countDown hrunning rfl)) (Nat.succ_ne_zero 5)

/-! ## Counting down -/

/-- A count that is not the last takes one off the register that counts:
`s.counted.y.toNat + 1 = s.y.toNat`. -/
theorem toNat_y_counted (h : s.y ≠ 0) : s.counted.y.toNat + 1 = s.y.toNat := by
  have hpos : 1 ≤ s.y.toNat := Nat.one_le_iff_ne_zero.mpr fun hzero => h (UInt32.toNat_inj.mp hzero)
  have hsub : (s.y - 1).toNat = s.y.toNat - 1 := UInt32.toNat_sub_of_le _ _ hpos
  show (s.y - 1).toNat + 1 = s.y.toNat
  omega

/-- After a count that is not the last the next one follows: `s.counted.next = 3`. -/
theorem next_counted (h : s.y ≠ 0) : s.counted.next = 3 := if_neg h

/-- The machine when all counts are done, with the pin at a level: the register that counts has gone
past zero. -/
def spent (s : Machine) (level : PinLevel) : Machine :=
  { s with y := 0 - 1, pin := level, next := 0 }

/-- After the last count the machine is spent: `s.counted = s.spent s.counted.pin`. -/
theorem counted_of_last (h : s.y = 0) : s.counted = s.spent s.counted.pin := by
  simp only [counted, spent, h, ↓reduceIte]

/-- A count does not matter to where the machine is once it is spent:
`s.counted.spent level = s.spent level`. -/
theorem spent_counted (s : Machine) (level : PinLevel) : s.counted.spent level = s.spent level :=
  rfl

/-- A count that is not the last, and the counts after it. -/
theorem plays_count_append (hrunning : s.running = true) (hnext : s.next = 3) (hmore : s.y ≠ 0)
    {levels : List PinLevel} (hrest : Plays .squareWave s.counted levels t) :
    Plays .squareWave s ([s.pin, s.counted.pin, s.counted.pin] ++ levels) t := by
  refine (plays_count hrunning hnext).trans hrest ?_
  rw [next_counted hmore]
  exact Nat.succ_ne_zero 2

/-- **Below the high time** the pin keeps its level to the end of the period. -/
theorem plays_rest (hrunning : s.running = true) (hnext : s.next = 3) (h : s.y < s.x) :
    Plays .squareWave s (.replicate (3 * s.y.toNat + 3) s.pin) (s.spent s.pin) := by
  -- induction on the register that counts, which stays below the high time
  induction hcount : s.y.toNat generalizing s with
  | zero =>
    have hpin : s.counted.pin = s.pin := if_neg (UInt32.ne_of_lt h).symm
    have hplays := plays_count hrunning hnext
    rwa [counted_of_last (UInt32.toNat_inj.mp hcount), hpin] at hplays
  | succ count ih =>
    have hpin : s.counted.pin = s.pin := if_neg (UInt32.ne_of_lt h).symm
    have hmore : s.y ≠ 0 := UInt32.toNat_inj.not.mp (hcount ▸ Nat.succ_ne_zero count)
    have hless := toNat_y_counted hmore
    have hbelow : s.counted.y < s.counted.x := by
      rw [UInt32.lt_iff_toNat_lt] at h ⊢
      show s.counted.y.toNat < s.x.toNat
      omega
    have hrest := ih (s := s.counted) hrunning (next_counted hmore) hbelow (by omega)
    have hall := plays_count_append hrunning hnext hmore hrest
    rw [hpin, spent_counted] at hall
    rw [show 3 * (count + 1) + 3 = 3 + (3 * count + 3) by omega, List.replicate_add 3]
    exact hall

/-- **From the period down to the high time** the pin keeps its level; it goes up one cycle after
the high time is reached. -/
theorem plays_countdown (hrunning : s.running = true) (hnext : s.next = 3) (h : s.x ≤ s.y) :
    Plays .squareWave s (.replicate (3 * (s.y.toNat - s.x.toNat) + 1) s.pin ++
      .replicate (3 * s.x.toNat + 2) .high) (s.spent .high) := by
  rw [UInt32.le_iff_toNat_le] at h
  -- induction on the counts that are left above the high time
  induction hcount : s.y.toNat - s.x.toNat generalizing s with
  | zero =>
    have heq : s.x = s.y := UInt32.toNat_inj.mp (by omega)
    have hpin : s.counted.pin = .high := if_pos heq
    by_cases hlast : s.y = 0
    · have hplays := plays_count hrunning hnext
      rw [counted_of_last hlast, hpin] at hplays
      rw [heq, hlast]
      exact hplays
    · -- the counts below the high time are left, and the pin stays up
      have hless := toNat_y_counted hlast
      have hx : s.counted.x.toNat = s.x.toNat := rfl
      have hbelow : s.counted.y < s.counted.x := UInt32.lt_iff_toNat_lt.mpr (by omega)
      have hall := plays_count_append hrunning hnext hlast
        (plays_rest (s := s.counted) hrunning (next_counted hlast) hbelow)
      rw [hpin, spent_counted] at hall
      rw [show 3 * s.x.toNat + 2 = 2 + (3 * s.counted.y.toNat + 3) by omega, List.replicate_add 2]
      exact hall
  | succ count ih =>
    have hpin : s.counted.pin = s.pin := if_neg fun heq => by simp [heq] at hcount
    have hmore : s.y ≠ 0 := fun hzero => by simp [hzero] at hcount
    have hless := toNat_y_counted hmore
    have hx : s.counted.x.toNat = s.x.toNat := rfl
    have hcountdown := ih (s := s.counted) hrunning (next_counted hmore) (by omega) (by omega)
    have hall := plays_count_append hrunning hnext hmore hcountdown
    rw [hpin, spent_counted, hx] at hall
    rw [show 3 * (count + 1) + 1 = 3 + (3 * count + 1) by omega, List.replicate_add 3,
      List.append_assoc]
    exact hall

/-! ## Passes -/

/-- The levels of the pin in one period: low for the counts above the high time and for the reload,
then high. -/
def onePeriod (counts high : Nat) : List PinLevel :=
  .replicate (3 * (counts - high) + 4) .low ++ .replicate (3 * high + 2) .high

/-- A period takes three cycles a count, and six more:
`(onePeriod counts high).length = 3 * counts + 6`. -/
theorem length_onePeriod {counts high : Nat} (h : high ≤ counts) :
    (onePeriod counts high).length = 3 * counts + 6 := by
  rw [onePeriod, List.length_append, List.length_replicate, List.length_replicate]
  omega

/-- **One pass** through the program makes one period, and leads back to the first instruction. -/
theorem plays_pass (hrunning : s.running = true) (hnext : s.next = 0)
    (h : s.highTime ≤ s.inputShift) :
    Plays .squareWave s (onePeriod s.inputShift.toNat s.highTime.toNat)
      (s.reloaded.spent .high) := by
  have hall := (plays_reload hrunning hnext).trans
    (plays_countdown (s := s.reloaded) hrunning rfl h) (Nat.succ_ne_zero 2)
  rw [onePeriod, show 3 * (s.inputShift.toNat - s.highTime.toNat) + 4 =
    3 + (3 * (s.inputShift.toNat - s.highTime.toNat) + 1) by omega, List.replicate_add 3,
    List.append_assoc]
  exact hall

/-- A running machine at the first instruction, with a period, and a high time that is in its queue
or was taken from there. -/
structure AtPass (s : Machine) (counts high : UInt32) : Prop where
  /-- It runs. -/
  running : s.running = true
  /-- It is at the first instruction. -/
  next : s.next = 0
  /-- The period is in its input shift register. -/
  inputShift : s.inputShift = counts
  /-- The next pass has the high time. -/
  highTime : s.highTime = high
  /-- No other high time waits for a later pass. -/
  queue : s.queue.tail = []

variable {counts high : UInt32}

/-- A machine at the start of a pass plays one period, and is spent with the pin high. -/
theorem AtPass.plays (h : s.AtPass counts high) (hle : high ≤ counts) :
    Plays .squareWave s (onePeriod counts.toNat high.toNat) (s.reloaded.spent .high) := by
  have hpass := plays_pass h.running h.next (by rwa [h.highTime, h.inputShift])
  rwa [h.highTime, h.inputShift] at hpass

/-- After a pass the high time is kept, because the queue is empty. -/
theorem AtPass.after_pass (h : s.AtPass counts high) :
    (s.reloaded.spent .high).AtPass counts high where
  running := h.running
  next := rfl
  inputShift := h.inputShift
  highTime := by
    show s.queue.tail.headD s.highTime = high
    rw [h.queue]
    exact h.highTime
  queue := by
    show s.queue.tail.tail = []
    rw [h.queue]
    rfl

/-- **Any number of passes** leads to another one. -/
theorem AtPass.after_passes (h : s.AtPass counts high) (hle : high ≤ counts) (passes : Nat) :
    (cycles .squareWave (passes * (3 * counts.toNat + 6)) s).AtPass counts high := by
  induction passes generalizing s with
  | zero =>
    rw [Nat.zero_mul]
    exact h
  | succ passes ih =>
    have hpass := (h.plays hle).cycles_eq
    rw [length_onePeriod (UInt32.le_iff_toNat_le.mp hle)] at hpass
    rw [Nat.succ_mul, Nat.add_comm, cycles_add, hpass]
    exact ih h.after_pass

/-- After the first pass nothing waits in the queue. -/
theorem AtPass.queue_after_passes (h : s.AtPass counts high) (hle : high ≤ counts) {passes : Nat}
    (hpos : 0 < passes) :
    (cycles .squareWave (passes * (3 * counts.toNat + 6)) s).queue = [] := by
  obtain ⟨before, rfl⟩ := Nat.exists_eq_add_of_lt hpos
  have hbefore := h.after_passes hle before
  have hpass := (hbefore.plays hle).cycles_eq
  rw [length_onePeriod (UInt32.le_iff_toNat_le.mp hle)] at hpass
  rw [Nat.zero_add, Nat.succ_mul, cycles_add, hpass]
  exact hbefore.queue

/-- **The wave.** A machine that was given a period, with half of it as the only queued word, makes
the same wave in every pass through the program, whatever else was in its registers. A pass is the
time from the first instruction until the machine is there again. The words of the program say the
instructions that are run here. -/
theorem wave_squareWave (hrunning : s.running = true) (hnext : s.next = 0)
    (hshift : s.inputShift = counts) (hqueue : s.queue = [counts / 2]) :
    Program.squareWave.words.mapM Instruction.ofWord? = some Program.squareWave.instructions ∧
      ∀ passes,
        let length := 3 * counts.toNat + 6
        let low := 3 * (counts.toNat - counts.toNat / 2) + 4
        let high := 3 * (counts.toNat / 2) + 2
        let start := cycles .squareWave (passes * length) s
        (start.next = 0 ∧ (cycles .squareWave length start).next = 0 ∧
          ∀ count, 0 < count → count < length →
            (cycles .squareWave count start).next ≠ 0) ∧
          wave .squareWave length start = .replicate low .low ++ .replicate high .high ∧
          (0 < passes → start.queue = []) ∧
          low + high = length ∧ high ≤ low ∧ low ≤ high + 5 := by
  constructor
  · exact Program.mapM_ofWord?_words (by simp [Program.squareWave, Operation.Fits])
  · intro passes length low high start
    have hhalf : (counts / 2).toNat = counts.toNat / 2 := UInt32.toNat_div _ _
    have hle : counts / 2 ≤ counts := by
      rw [UInt32.le_iff_toNat_le, hhalf]
      exact Nat.div_le_self _ _
    have hfirst : s.AtPass counts (counts / 2) :=
      ⟨hrunning, hnext, hshift, by rw [highTime, hqueue]; rfl, by rw [hqueue]; rfl⟩
    have hstart : start.AtPass counts (counts / 2) := hfirst.after_passes hle passes
    have hlength : (onePeriod counts.toNat (counts / 2).toNat).length = length :=
      length_onePeriod (UInt32.le_iff_toNat_le.mp hle)
    have hplays := hstart.plays hle
    refine ⟨⟨hstart.next, ?_, ?_⟩, ?_, hfirst.queue_after_passes hle, ?_⟩
    · rw [← hlength, hplays.cycles_eq]
      rfl
    · rw [← hlength]
      exact hplays.next_ne
    · rw [← hlength, hplays.wave_eq, onePeriod, hhalf]
    · omega

/-- A machine that was given a frequency whose period is odd: the low half is five cycles longer
than the high one, in the third pass as in the first. -/
theorem wave_squareWave_oddPeriod :
    let s := (generate 125000000 12 (.ofNat 12000000)).foldl obey idle
    s.running = true ∧ s.next = 0 ∧ s.inputShift = 3 ∧ s.queue = [3 / 2] ∧
      wave .squareWave 15 (cycles .squareWave (2 * 15) s) =
        .replicate 10 .low ++ .replicate 5 .high := by
  intro s
  have hrunning : s.running = true := by decide +kernel
  have hnext : s.next = 0 := by decide +kernel
  have hshift : s.inputShift = 3 := by decide +kernel
  have hqueue : s.queue = [3 / 2] := by decide +kernel
  exact ⟨hrunning, hnext, hshift, hqueue,
    ((wave_squareWave hrunning hnext hshift hqueue).2 2).2.1⟩

end Tachometer.Wave.Machine
