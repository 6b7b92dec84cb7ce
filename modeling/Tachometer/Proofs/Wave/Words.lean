import Tachometer.Wave.Program

/-! # Instructions from their words

A word says what the instruction does in its upper three bits, with the details in its lower eight.
The five bits between them are for the pin and for idle cycles; no instruction here idles.

* `Instruction.ofWord?` — the instruction of a word, unless the word stands for none.
* `Instruction.ofWord?_encode` — it is the one that the word was made of.
* `Program.mapM_ofWord?_words` — so the words of a program say all of its instructions. -/

namespace Tachometer.Wave

/-! ## Reading a word -/

/-- The register of a number. -/
def Register.ofCode? (code : UInt16) : Option Register :=
  [.x, .y, .inputShift, .outputShift].find? (·.code = code)

/-- The condition of a number. -/
def Condition.ofCode? (code : UInt16) : Option Condition :=
  [.always, .countDownY, .xDiffersY].find? (·.code = code)

/-- What a word makes a machine do. -/
def Operation.ofWord? (word : UInt16) : Option Operation :=
  let details := word % 256
  match (word >>> 13).toNat with
  | 0 => (Condition.ofCode? (details >>> 5)).map fun condition => .jump condition (word % 32).toNat
  | 3 => if details = Register.inputShift.code <<< 5 then some .shift else none
  | 4 => if details = 0x80 then some .pull else none
  | 5 =>
    -- the two bits between the registers would change the word that is copied
    if (details >>> 3) % 4 = 0 then
      match Register.ofCode? (details >>> 5), Register.ofCode? (details % 8) with
      | some destination, some source => some (.move destination source)
      | _, _ => none
    else none
  | _ => none

/-- The level that a word sets the pin to, if it sets it. -/
def sideOfWord (word : UInt16) : Option Bool :=
  if (word >>> 12) % 2 = 1 then some ((word >>> 11) % 2 = 1) else none

/-- The instruction of a word. -/
def Instruction.ofWord? (word : UInt16) : Option Instruction :=
  if (word >>> 8) % 8 = 0 then
    (Operation.ofWord? word).map fun operation => ⟨operation, sideOfWord word⟩
  else none

/-! ## Reading back -/

/-- The target of a jump has five bits in a word. -/
def Operation.Fits : Operation → Prop
  | .jump _ target => target < 32
  | _ => True

/-- **A word says its instruction.** `ofWord? i.encode = some i`. -/
theorem Instruction.ofWord?_encode {i : Instruction} (h : i.operation.Fits) :
    ofWord? i.encode = some i := by
  obtain ⟨operation, side⟩ := i
  -- few enough words to go through them all
  cases operation with
  | jump condition target =>
    have hall : ∀ place : Fin 32, ofWord? (encode ⟨.jump condition place, side⟩) =
        some ⟨.jump condition place, side⟩ := by
      cases condition <;> obtain _ | _ | _ := side <;> decide +kernel
    exact hall ⟨target, h⟩
  | pull => obtain _ | _ | _ := side <;> decide
  | move destination source =>
    cases destination <;> cases source <;> obtain _ | _ | _ := side <;> decide
  | shift => obtain _ | _ | _ := side <;> decide

/-- **The words of a program** say its instructions, in order:
`p.words.mapM Instruction.ofWord? = some p.instructions`. -/
theorem Program.mapM_ofWord?_words {p : Program} (h : ∀ i ∈ p.instructions, i.operation.Fits) :
    p.words.mapM Instruction.ofWord? = some p.instructions := by
  rw [words, List.mapM_map]
  generalize p.instructions = instructions at h ⊢
  induction instructions with
  | nil => rfl
  | cons i rest ih =>
    obtain ⟨hi, hrest⟩ := List.forall_mem_cons.mp h
    rw [List.mapM_cons, Function.comp_apply, Instruction.ofWord?_encode hi, ih hrest]
    rfl

end Tachometer.Wave
