import Tachometer.Proofs.Wave.Generate

/-! # How the driver treats its machines

A running machine takes words from its queue when it likes, and the driver does not see it. What
the driver asks for is right all the same, because it stops a machine before anything else, and a
stopped machine does nothing by itself.

* `Machine.Drifts` — what a machine may do by itself, clock cycles of any program included.
* `Machine.Reaches` — where a row of calls may lead a machine that drifts before, between and
  after them.
* `Machine.Fits`, `Machine.Safe` — the calls that a machine is fit for, and rows of calls that
  always find it fit.
* `Bank.Disciplined`, `Bank.disciplined_perform` — what holds of the calls for any commands. -/

namespace Tachometer.Wave

namespace Machine

variable {index : Nat} {s t u : Machine}

/-! ## Left to itself -/

/-- What a machine may do by itself: a stopped one nothing, a running one anything except to stop
or to put words into its queue. -/
structure Drifts (s t : Machine) : Prop where
  /-- It does not start or stop. -/
  running_eq : t.running = s.running
  /-- It takes words from the front of its queue, or none. -/
  queue_suffix : t.queue <:+ s.queue
  /-- A stopped machine stays as it is. -/
  eq_of_stopped : s.running = false → t = s

/-- A machine may do nothing by itself: `s.Drifts s`. -/
@[refl] theorem Drifts.refl (s : Machine) : s.Drifts s := ⟨rfl, List.suffix_rfl, fun _ => rfl⟩

/-- What a machine does by itself in two steps it may do in one: `s.Drifts t` and `t.Drifts u` give
`s.Drifts u`. -/
theorem Drifts.trans (hst : s.Drifts t) (htu : t.Drifts u) : s.Drifts u where
  running_eq := htu.running_eq.trans hst.running_eq
  queue_suffix := htu.queue_suffix.trans hst.queue_suffix
  eq_of_stopped := by
    intro h
    obtain rfl := hst.eq_of_stopped h
    exact htu.eq_of_stopped h

/-- A stopped machine does nothing by itself: `s.Drifts t ↔ t = s`. -/
theorem drifts_iff_of_stopped (h : s.running = false) : s.Drifts t ↔ t = s := by
  constructor
  · intro ht
    exact ht.eq_of_stopped h
  · rintro rfl
    exact .refl t

/-- Writing a register does not stop or start a machine:
`(s.put register word).running = s.running`. -/
@[simp] theorem running_put (s : Machine) (register : Register) (word : UInt32) :
    (s.put register word).running = s.running := by
  cases register <;> rfl

/-- Writing a register leaves the queue alone: `(s.put register word).queue = s.queue`. -/
@[simp] theorem queue_put (s : Machine) (register : Register) (word : UInt32) :
    (s.put register word).queue = s.queue := by
  cases register <;> rfl

/-- An operation does not start or stop the machine: `(s.execute operation).running = s.running`. -/
@[simp] theorem running_execute (s : Machine) (operation : Operation) :
    (s.execute operation).running = s.running := by
  cases operation with
  | jump condition target => cases condition <;> simp only [execute, tested] <;> split <;> rfl
  | pull => simp only [execute]; split <;> rfl
  | move destination source => exact running_put ..
  | shift => rfl

/-- An operation puts nothing into the queue: `(s.execute operation).queue <:+ s.queue`. -/
theorem queue_execute_suffix (s : Machine) (operation : Operation) :
    (s.execute operation).queue <:+ s.queue := by
  cases operation with
  | jump condition target =>
    have heq : (s.execute (.jump condition target)).queue = s.queue := by
      cases condition <;> simp only [execute, tested] <;> split <;> rfl
    exact heq ▸ List.suffix_rfl
  | pull =>
    simp only [execute]
    split
    case h_1 word rest hqueue =>
      rw [hqueue]
      exact List.suffix_cons word rest
    case h_2 => exact List.suffix_rfl
  | move destination source =>
    have heq : (s.execute (.move destination source)).queue = s.queue := queue_put ..
    exact heq ▸ List.suffix_rfl
  | shift => exact List.suffix_rfl

/-- **Clock cycles.** What a program does is one of the things that a machine may do by itself. -/
theorem drifts_cycles (program : Program) (count : Nat) (s : Machine) :
    s.Drifts (cycles program count s) := by
  induction count generalizing s with
  | zero => exact .refl s
  | succ count ih =>
    refine Drifts.trans ?_ (ih (s.cycle program))
    cases h : s.running with
    | false => rw [cycle_of_stopped program h]
    | true =>
      refine ⟨?_, ?_, fun hstopped => absurd (h.symm.trans hstopped) (by simp)⟩
      · simp only [cycle, h, ↓reduceIte]
        split
        · rw [running_execute]
        · exact h
      · simp only [cycle, h, ↓reduceIte]
        split
        · exact queue_execute_suffix ..
        · exact List.suffix_rfl

/-! ## Where calls lead -/

/-- A row of calls may lead a machine of a given number to another state, when it drifts before,
between and after the calls. -/
inductive Reaches (index : Nat) : Machine → List Call → Machine → Prop where
  /-- It drifts after the last call. -/
  | nil {s t : Machine} : s.Drifts t → Reaches index s [] t
  /-- It drifts before the next call. -/
  | cons {s t u : Machine} {call : Call} {calls : List Call} :
      s.Drifts t → Reaches index (t.after index [call]) calls u → Reaches index s (call :: calls) u

/-- Without calls a machine reaches what it drifts to: `s.Reaches index [] t ↔ s.Drifts t`. -/
@[simp] theorem reaches_nil_iff : s.Reaches index [] t ↔ s.Drifts t := by
  constructor
  · rintro ⟨h⟩
    exact h
  · exact .nil

/-- A row of calls leads through a drift, the first call and then the others:
`∃ t, s.Drifts t ∧ (t.after index [call]).Reaches index calls u`. -/
theorem reaches_cons_iff {call : Call} {calls : List Call} :
    s.Reaches index (call :: calls) u ↔
      ∃ t, s.Drifts t ∧ (t.after index [call]).Reaches index calls u := by
  constructor
  · rintro (_ | ⟨hdrift, hrest⟩)
    exact ⟨_, hdrift, hrest⟩
  · rintro ⟨t, hdrift, hrest⟩
    exact .cons hdrift hrest

/-- A machine that does nothing by itself goes where it is asked to go. -/
theorem reaches_after (s : Machine) (index : Nat) (calls : List Call) :
    s.Reaches index calls (s.after index calls) := by
  induction calls generalizing s with
  | nil => exact .nil (.refl s)
  | cons call calls ih =>
    refine .cons (.refl s) ?_
    -- a row of calls is followed one call at a time
    have hsplit : s.after index (call :: calls) = (s.after index [call]).after index calls := by
      simp only [Machine.after, List.filterMap_cons]
      cases call.to? index <;> rfl
    exact hsplit ▸ ih _

/-- A drift before the calls is one more before the first: `s.Drifts t` and
`t.Reaches index calls u` give `s.Reaches index calls u`. -/
theorem Reaches.of_drifts {calls : List Call} (hst : s.Drifts t) (h : t.Reaches index calls u) :
    s.Reaches index calls u := by
  cases h with
  | nil htu => exact .nil (hst.trans htu)
  | cons htu hrest => exact .cons (hst.trans htu) hrest

/-- Where a longer row leads, its second part leads from where its first part does. -/
theorem reaches_append_iff {first second : List Call} :
    s.Reaches index (first ++ second) u ↔
      ∃ t, s.Reaches index first t ∧ t.Reaches index second u := by
  induction first generalizing s with
  | nil =>
    constructor
    · intro h
      exact ⟨s, .nil (.refl s), h⟩
    · rintro ⟨t, hst, h⟩
      exact .of_drifts (reaches_nil_iff.mp hst) h
  | cons call first ih =>
    rw [List.cons_append, reaches_cons_iff]
    constructor
    · rintro ⟨r, hsr, hrest⟩
      obtain ⟨t, hrt, htu⟩ := ih.mp hrest
      exact ⟨t, .cons hsr hrt, htu⟩
    · rintro ⟨t, hst, htu⟩
      obtain ⟨r, hsr, hrest⟩ := reaches_cons_iff.mp hst
      exact ⟨r, hsr, ih.mpr ⟨t, hrest, htu⟩⟩

/-- A machine obeys the calls that are for it:
`s.after index [.machine index asked] = s.obey asked`. -/
@[simp] theorem after_machine_self (s : Machine) (index : Nat) (asked : MachineCall) :
    s.after index [.machine index asked] = s.obey asked := by
  simp [Machine.after]

/-- A stopped machine is started by one call only: `(s.obey asked).running = false`. -/
theorem running_obey_of_ne {asked : MachineCall} (hne : asked ≠ .enable true)
    (h : s.running = false) : (s.obey asked).running = false := by
  cases asked with
  | enable running =>
    cases running with
    | false => rfl
    | true => exact absurd rfl hne
  | execute operation =>
    rw [obey, running_execute, h]
  | setPins | setDirections | configure | clearQueues | push => exact h

/-- **Stopped machines.** Calls that do not start a stopped machine lead it exactly where it is
asked to go. -/
theorem reaches_iff_of_stopped (h : s.running = false) {calls : List MachineCall}
    (hcalls : .enable true ∉ calls) :
    s.Reaches index (calls.map (.machine index)) u ↔ u = calls.foldl obey s := by
  induction calls generalizing s with
  | nil => exact reaches_nil_iff.trans (drifts_iff_of_stopped h)
  | cons asked calls ih =>
    obtain ⟨hne, hrest⟩ := not_or.mp fun h => hcalls (List.mem_cons.mpr h)
    rw [List.map_cons, reaches_cons_iff]
    simp only [drifts_iff_of_stopped h, exists_eq_left, after_machine_self]
    exact ih (running_obey_of_ne (Ne.symm hne) h) hrest

/-- A machine that is asked to stop has drifted before, and then is led exactly where it is asked
to go. -/
theorem reaches_stop_iff (calls : List MachineCall) (hcalls : .enable true ∉ calls) :
    s.Reaches index ((.enable false :: calls).map (.machine index)) u ↔
      ∃ t, s.Drifts t ∧ u = calls.foldl obey { t with running := false } := by
  rw [List.map_cons, reaches_cons_iff]
  simp only [after_machine_self]
  exact exists_congr fun t => and_congr_right fun _ => reaches_iff_of_stopped rfl hcalls

/-- A stopped machine that is started drifts from there on. -/
theorem reaches_start_iff (h : s.running = false) :
    s.Reaches index ([.enable true].map (.machine index)) u ↔
      Drifts { s with running := true } u := by
  rw [List.map_singleton, reaches_cons_iff]
  simp only [drifts_iff_of_stopped h, exists_eq_left, after_machine_self, reaches_nil_iff]
  rfl

/-- **One frequency.** A machine drifts, is given the frequency, and drifts on. -/
theorem reaches_generate_iff {clock pin : Nat} {frequency : Binary64} :
    s.Reaches index ((generate clock pin frequency).map (.machine index)) u ↔
      ∃ t, s.Drifts t ∧ (t.generating clock frequency).Drifts u := by
  unfold generate generating
  by_cases h : lowestFrequency ≤ frequency
  · -- the machine is stopped until the last call, which starts it again
    have hsplit (counts : UInt32) :
        [.enable false, .clearQueues] ++ (loadPeriod counts ++ [.push (counts / 2), .enable true]) =
          (.enable false :: .clearQueues :: (loadPeriod counts ++ [.push (counts / 2)])) ++
            [.enable true] := rfl
    have hquiet (counts : UInt32) :
        .enable true ∉ .clearQueues :: (loadPeriod counts ++ [.push (counts / 2)]) := by
      simp [loadPeriod]
    simp only [if_pos h, hsplit]
    rw [List.map_append, reaches_append_iff]
    simp only [reaches_stop_iff _ (hquiet _)]
    constructor
    · rintro ⟨_, ⟨t, hst, rfl⟩, hlast⟩
      exact ⟨t, hst, (reaches_start_iff rfl).mp hlast⟩
    · rintro ⟨t, hst, htu⟩
      exact ⟨_, ⟨t, hst, rfl⟩, (reaches_start_iff rfl).mpr htu⟩
  · simp only [if_neg h, List.cons_append, List.nil_append]
    rw [reaches_stop_iff _ (by simp)]
    refine exists_congr fun t => and_congr_right fun _ => ?_
    exact (drifts_iff_of_stopped rfl).symm

/-! ## Fitness -/

/-- Whether a machine is fit for a call: its pin is driven, its queue is filled and an instruction
is executed only while it is stopped, and a word is queued only when no other waits. -/
def Fits (s : Machine) : MachineCall → Prop
  | .setPins .. | .execute _ => s.running = false
  | .push _ => s.running = false ∧ s.queue = []
  | .setDirections .. | .configure _ | .enable _ | .clearQueues => True

/-- A row of calls always finds a machine fit, whatever it does by itself on the way. -/
def Safe (index : Nat) : Machine → List Call → Prop
  | _, [] => True
  | s, call :: calls => ∀ t, s.Drifts t →
      (∀ asked, call.to? index = some asked → t.Fits asked) ∧
        Safe index (t.after index [call]) calls

/-- Rows of calls are safe one after the other, if the second is wherever the first may lead:
`s.Safe index (first ++ second)`. -/
theorem safe_append {first second : List Call} (hfirst : s.Safe index first)
    (hsecond : ∀ t, s.Reaches index first t → t.Safe index second) :
    s.Safe index (first ++ second) := by
  induction first generalizing s with
  | nil => exact hsecond s (.nil (.refl s))
  | cons call first ih =>
    intro t hst
    obtain ⟨hfits, hrest⟩ := hfirst t hst
    exact ⟨hfits, ih hrest fun u hu => hsecond u (.cons hst hu)⟩

/-- Calls that are not for a machine are safe. -/
theorem safe_of_untouched {calls : List Call} (h : ∀ call ∈ calls, call.to? index = none)
    (s : Machine) : s.Safe index calls := by
  induction calls generalizing s with
  | nil => trivial
  | cons call calls ih =>
    intro t _
    refine ⟨fun asked hasked => ?_, ih (fun call hmem => h call (List.mem_cons_of_mem _ hmem)) _⟩
    rw [h call List.mem_cons_self] at hasked
    exact absurd hasked (by simp)

/-- A stopped machine that is fit for the first call is as the calls find it, so that only the
others are left: `s.Safe index (.machine index asked :: calls)`. -/
theorem safe_cons_of_stopped (h : s.running = false) {asked : MachineCall} {calls : List Call}
    (hfits : s.Fits asked) (hrest : (s.obey asked).Safe index calls) :
    s.Safe index (.machine index asked :: calls) := by
  intro t hst
  obtain rfl := (drifts_iff_of_stopped h).mp hst
  rw [after_machine_self]
  refine ⟨fun other hother => ?_, hrest⟩
  obtain rfl := Option.some.inj ((Call.to?_machine_self index asked).symm.trans hother)
  exact hfits

/-- **One frequency.** Its calls are safe for every machine. -/
theorem safe_generate (s : Machine) (clock pin : Nat) (frequency : Binary64) :
    s.Safe index ((generate clock pin frequency).map (.machine index)) := by
  intro t _
  refine ⟨fun asked hasked => ?_, ?_⟩
  · obtain rfl := Option.some.inj ((Call.to?_machine_self index _).symm.trans hasked)
    trivial
  · -- from here on the machine is stopped, so it is where the calls have led it
    rw [after_machine_self]
    refine safe_cons_of_stopped rfl trivial ?_
    by_cases h : lowestFrequency ≤ frequency
    · simp only [if_pos h]
      exact safe_cons_of_stopped rfl ⟨rfl, rfl⟩ <| safe_cons_of_stopped rfl rfl <|
        safe_cons_of_stopped rfl rfl <| safe_cons_of_stopped rfl ⟨rfl, rfl⟩ <|
        safe_cons_of_stopped rfl trivial trivial
    · simp only [if_neg h]
      exact safe_cons_of_stopped rfl rfl trivial

/-- A call of a safe row finds the machine fit. -/
theorem Safe.fits {before rest : List Call} {asked : MachineCall}
    (h : s.Safe index (before ++ .machine index asked :: rest)) (ht : s.Reaches index before t) :
    t.Fits asked := by
  induction ht with
  | nil hst => exact (h _ hst).1 asked (Call.to?_machine_self index asked)
  | cons hst _ ih => exact ih (h _ hst).2

/-- A call that finds a machine fit leaves at most one word in its queue:
`(s.obey asked).queue.length ≤ 1`. -/
theorem length_queue_obey_le {asked : MachineCall} (hfits : s.Fits asked)
    (h : s.queue.length ≤ 1) : (s.obey asked).queue.length ≤ 1 := by
  cases asked with
  | push word => simp [obey, hfits.2]
  | clearQueues => exact Nat.zero_le _
  | execute operation => exact (queue_execute_suffix s operation).length_le.trans h
  | setPins | setDirections | configure | enable => exact h

/-- **One word at most.** A safe row of calls never leaves more than one word in a queue:
`t.queue.length ≤ 1`. -/
theorem Safe.length_queue_le {before rest : List Call} (h : s.Safe index (before ++ rest))
    (hs : s.queue.length ≤ 1) (ht : s.Reaches index before t) : t.queue.length ≤ 1 := by
  induction ht with
  | nil hst => exact hst.queue_suffix.length_le.trans hs
  | @cons s r _ call _ hsr _ ih =>
    obtain ⟨hfits, hrest⟩ := h r hsr
    have hr := hsr.queue_suffix.length_le.trans hs
    refine ih hrest ?_
    cases hcall : call.to? index with
    | none => simpa [Machine.after, hcall] using hr
    | some asked => simpa [Machine.after, hcall] using length_queue_obey_le (hfits asked hcall) hr

end Machine

namespace Bank

/-! ## The bank -/

/-- A command to one output is not for the machine of another:
`∀ call ∈ bank.perform command, call.to? index = none`. -/
theorem to?_eq_none_of_mem_perform {bank : Bank} {command : Command} {index : Nat}
    (hne : command.channel ≠ index) : ∀ call ∈ bank.perform command, call.to? index = none := by
  intro call hmem
  by_cases hlt : command.channel < 4
  · rw [perform_of_lt bank hlt] at hmem
    obtain ⟨asked, -, rfl⟩ := List.mem_map.mp hmem
    exact if_neg hne
  · rw [perform_of_le bank (Nat.not_lt.mp hlt)] at hmem
    rw [List.mem_singleton.mp hmem]
    rfl

/-- The calls for a command are safe for any machine in any state:
`s.Safe index (bank.perform command)`. -/
theorem safe_perform (bank : Bank) (command : Command) (index : Nat) (s : Machine) :
    s.Safe index (bank.perform command) := by
  by_cases hne : command.channel ≠ index
  · exact Machine.safe_of_untouched (to?_eq_none_of_mem_perform hne) s
  · obtain rfl := not_not.mp hne
    by_cases hlt : command.channel < 4
    · rw [perform_of_lt bank hlt]
      exact s.safe_generate _ _ _
    · rw [perform_of_le bank (Nat.not_lt.mp hlt)]
      exact Machine.safe_of_untouched (by simp [Call.to?]) s

/-- **Several commands.** Their calls are safe for every machine. -/
theorem safe_flatMap_perform (bank : Bank) (commands : List Command) (index : Nat) (s : Machine) :
    s.Safe index (commands.flatMap bank.perform) := by
  induction commands generalizing s with
  | nil => trivial
  | cons command commands ih =>
    exact Machine.safe_append (bank.safe_perform command index s) fun t _ => ih t

/-- How the calls for a row of commands treat the machines. A machine may be in any state at the
start, and may drift before, between and after the calls. -/
structure Disciplined (bank : Bank) (commands : List Command) : Prop where
  /-- Pins are driven, words queued and instructions executed only while the machine is stopped,
  and words are queued only on an empty queue. -/
  fits : ∀ (start s : Machine) (index : Nat) (before rest : List Call) (asked : MachineCall),
    commands.flatMap bank.perform = before ++ .machine index asked :: rest →
      start.Reaches index before s → s.Fits asked
  /-- No queue ever holds more than one word, unless it did so at the start. -/
  length_queue_le : ∀ (start s : Machine) (index : Nat) (before rest : List Call),
    commands.flatMap bank.perform = before ++ rest → start.queue.length ≤ 1 →
      start.Reaches index before s → s.queue.length ≤ 1
  /-- The next command, if its frequency can be generated, queues the period for a stopped machine
  with an empty queue, and then has it moved to the input shift register. -/
  loads_period : ∀ command : Command, command.channel < 4 → lowestFrequency ≤ command.frequency →
    ∃ before rest, bank.perform command = before ++
        [.machine command.channel (.push (period bank.clock command.frequency)),
          .machine command.channel (.execute .pull),
          .machine command.channel (.execute .shift)] ++ rest ∧
      (∀ start s : Machine,
        start.Reaches command.channel (commands.flatMap bank.perform ++ before) s →
          s.running = false ∧ s.queue = []) ∧
      ∀ start s : Machine,
        start.Reaches command.channel (commands.flatMap bank.perform ++ (before ++
          [.machine command.channel (.push (period bank.clock command.frequency)),
            .machine command.channel (.execute .pull),
            .machine command.channel (.execute .shift)])) s →
          s.inputShift = period bank.clock command.frequency ∧ s.queue = []
  /-- The next command touches the machine of its output only. -/
  touches_own : ∀ command : Command, command.channel < 4 → ∀ call ∈ bank.perform command,
    ∃ asked, call = .machine command.channel asked
  /-- After it the machine runs exactly when the frequency can be generated. -/
  running_iff : ∀ command : Command, command.channel < 4 → ∀ start s : Machine,
    start.Reaches command.channel (commands.flatMap bank.perform ++ bank.perform command) s →
      (s.running = true ↔ lowestFrequency ≤ command.frequency)
  /-- A command to an output without a machine is reported, and touches no machine. -/
  missing : ∀ command : Command, 4 ≤ command.channel →
    bank.perform command = [.missing command.channel]

/-- **Discipline.** Whatever the commands are, and whatever the machines do by themselves, every
call finds its machine in the state that it needs. -/
theorem disciplined_perform (bank : Bank) (commands : List Command) :
    Disciplined bank commands := by
  constructor
  case fits =>
    intro start s index before rest asked hcalls hreaches
    exact (hcalls ▸ bank.safe_flatMap_perform commands index start).fits hreaches
  case length_queue_le =>
    intro start s index before rest hcalls hstart hreaches
    exact (hcalls ▸ bank.safe_flatMap_perform commands index start).length_queue_le hstart hreaches
  case loads_period =>
    intro command hlt hlowest
    refine ⟨[.machine command.channel (.enable false), .machine command.channel .clearQueues],
      [.machine command.channel (.push (period bank.clock command.frequency / 2)),
        .machine command.channel (.enable true)], ?_, ?_, ?_⟩
    · rw [perform_of_lt bank hlt, generate, if_pos hlowest]
      rfl
    · -- whatever the machine was doing before, it is stopped first, and then led
      intro start s hreaches
      obtain ⟨r, -, hlast⟩ := Machine.reaches_append_iff.mp hreaches
      obtain ⟨t, -, rfl⟩ := (Machine.reaches_stop_iff [.clearQueues] (by simp)).mp hlast
      exact ⟨rfl, rfl⟩
    · intro start s hreaches
      obtain ⟨r, -, hlast⟩ := Machine.reaches_append_iff.mp hreaches
      obtain ⟨t, -, rfl⟩ := (Machine.reaches_stop_iff
        (.clearQueues :: loadPeriod (period bank.clock command.frequency))
        (by simp [loadPeriod])).mp hlast
      exact ⟨rfl, rfl⟩
  case touches_own =>
    intro command hlt call hmem
    rw [perform_of_lt bank hlt] at hmem
    obtain ⟨asked, -, rfl⟩ := List.mem_map.mp hmem
    exact ⟨asked, rfl⟩
  case running_iff =>
    intro command hlt start s hreaches
    rw [perform_of_lt bank hlt] at hreaches
    obtain ⟨r, -, hlast⟩ := Machine.reaches_append_iff.mp hreaches
    obtain ⟨t, -, hdrift⟩ := Machine.reaches_generate_iff.mp hlast
    rw [hdrift.running_eq, Machine.running_generating]
  case missing =>
    intro command hle
    exact perform_of_le bank hle

end Bank

end Tachometer.Wave
