import Mathlib.Data.Nat.Find
import Mathlib.Order.Bounds.Basic
import Chip8.Proofs.Reachable
import Chip8.Proofs.Refusal

/-!
# The bytes that memory lacks

A step accesses the two bytes of its opcode, and then those from the index on that its instruction
asks for. If memory lacks one of them, the step faults with the first that is lacking, and if memory
has them all, then the step does not fault for any. There is one exception. A sprite of no rows
needs no byte at all, but memory is asked for the place where it would begin, and beyond the end
there is no such place: the draw is refused and names a byte that it does not access.
-/

namespace Chip8

/-- The number of bytes from the index on that an instruction reads or writes. -/
def Instruction.span : Instruction → Nat
  | .draw _ _ height => height
  | .storeDecimal _ => 3
  | .storeRegisters last => last + 1
  | .loadRegisters last => last + 1
  | _ => 0

namespace Machine

/-- The addresses of the bytes that a step accesses. -/
inductive Accesses (machine : Machine) : Nat → Prop
  /-- The bytes of the opcode. -/
  | opcode (place : Nat) (low : place < 2) : Accesses machine (machine.pc.toNat + place)
  /-- The bytes that the instruction asks for. -/
  | operand {instruction : Instruction} (found : machine.instruction = .ok instruction)
    (place : Nat) (low : place < instruction.span) :
    Accesses machine (machine.index.toNat + place)

/-- The first byte that a step accesses and memory lacks. -/
def FirstMissing (machine : Machine) : Nat → Prop :=
  IsLeast {address | machine.Accesses address ∧ 4096 ≤ address}

/-- The step draws a sprite of no rows that would begin beyond the end of memory. -/
def DrawsNothing (machine : Machine) : Prop :=
  ∃ x y height, machine.instruction = .ok (.draw x y height) ∧ height.val = 0 ∧
    4096 < machine.index.toNat

/-- If memory lacks a byte that a step accesses, then there is a first that it lacks. -/
theorem exists_firstMissing (machine : Machine) {missing : Nat}
    (accessed : machine.Accesses missing) (lacking : 4096 ≤ missing) :
    ∃ address, machine.FirstMissing address := by
  classical
  have some : ∃ address, machine.Accesses address ∧ 4096 ≤ address := ⟨missing, accessed, lacking⟩
  exact ⟨Nat.find some, Nat.find_spec some, fun _ found => Nat.find_min' some found⟩

/-- The first address that memory lacks in a range is the start of the range or the end of memory,
and there is one if the range is not empty and reaches past the end. -/
theorem isLeast_missing_iff (start count address : Nat) :
    IsLeast {address | (∃ place < count, start + place = address) ∧ 4096 ≤ address} address ↔
      0 < count ∧ 4096 < start + count ∧ address = max start 4096 := by
  constructor
  · rintro ⟨⟨⟨place, low, rfl⟩, outside⟩, least⟩
    have reached : 4096 < start + count := by omega
    have first : start + (max start 4096 - start) = max start 4096 := by omega
    have bound := least ⟨⟨max start 4096 - start, by omega, first⟩, le_max_right _ _⟩
    exact ⟨by omega, reached, by omega⟩
  · rintro ⟨some, reached, rfl⟩
    constructor
    · exact ⟨⟨max start 4096 - start, by omega, by omega⟩, le_max_right _ _⟩
    · rintro _ ⟨⟨place, low, rfl⟩, outside⟩
      omega

/-- The first byte of an opcode that does not lie in memory is missing, unless it is the last that
memory has. -/
theorem firstMissing_of_outside {machine : Machine} (outside : ¬ machine.pc.toNat ≤ 0xFFE)
    (address : Nat) : machine.FirstMissing address ↔ address = max machine.pc.toNat 4096 := by
  have accessed : ∀ place, machine.Accesses place ↔
      ∃ offset < 2, machine.pc.toNat + offset = place := by
    intro place
    constructor
    · rintro (⟨offset, low⟩ | ⟨found, offset, low⟩)
      · exact ⟨offset, low, rfl⟩
      · rw [machine.instruction_of_outside (by omega)] at found
        cases found
    · rintro ⟨offset, low, rfl⟩
      exact .opcode offset low
  simp only [FirstMissing, accessed]
  rw [isLeast_missing_iff]
  omega

/-- Of an instruction, memory lacks what reaches past its end of the bytes that it asks for. -/
theorem firstMissing_of_instruction {machine : Machine} {instruction : Instruction}
    (found : machine.instruction = .ok instruction) (address : Nat) :
    machine.FirstMissing address ↔
      0 < instruction.span ∧ 4096 < machine.index.toNat + instruction.span ∧
        address = max machine.index.toNat 4096 := by
  have accessed : ∀ place, machine.Accesses place ∧ 4096 ≤ place ↔
      (∃ offset < instruction.span, machine.index.toNat + offset = place) ∧ 4096 ≤ place := by
    intro place
    refine and_congr_left fun missing => ?_
    constructor
    · rintro (⟨offset, low⟩ | ⟨same, offset, low⟩)
      · -- The opcode has been fetched.
        obtain ⟨inside, -⟩ := (machine.instruction_eq_ok_iff _).mp found
        omega
      · obtain rfl := Except.ok.inj (found.symm.trans same)
        exact ⟨offset, low, rfl⟩
    · rintro ⟨offset, low, rfl⟩
      exact .operand found offset low
  simp only [FirstMissing, accessed]
  exact isLeast_missing_iff machine.index.toNat instruction.span address

/-- Memory lacks nothing that a step accesses whose opcode lies in memory and is no instruction. -/
theorem not_firstMissing_of_unknown {machine : Machine} (inside : machine.pc.toNat ≤ 0xFFE)
    (unknown : ∀ instruction, machine.instruction ≠ .ok instruction) (address : Nat) :
    ¬ machine.FirstMissing address := by
  rintro ⟨⟨⟨offset, low⟩ | ⟨found, offset, low⟩, missing⟩, -⟩
  · omega
  · exact unknown _ found

/-- A step draws nothing beyond the end of memory if its instruction draws, and no rows. -/
theorem drawsNothing_of_instruction {machine : Machine} {instruction : Instruction}
    (found : machine.instruction = .ok instruction) :
    machine.DrawsNothing ↔ (∃ x y height, instruction = .draw x y height) ∧
      instruction.span = 0 ∧ 4096 < machine.index.toNat := by
  constructor
  · rintro ⟨x, y, height, same, none, beyond⟩
    obtain rfl := Except.ok.inj (found.symm.trans same)
    exact ⟨⟨x, y, height, rfl⟩, none, beyond⟩
  · rintro ⟨⟨x, y, height, rfl⟩, none, beyond⟩
    exact ⟨x, y, height, found, none, beyond⟩

/-- An instruction is refused for want of a byte exactly if it asks for bytes from the index on that
reach past memory, be it for none of them to draw. -/
theorem refusal?_eq_outOfBounds_iff (machine : Machine) (instruction : Instruction)
    (address : Nat) :
    machine.refusal? instruction = some (.outOfBounds address) ↔
      (0 < instruction.span ∨ ∃ x y height, instruction = .draw x y height) ∧
        4096 < machine.index.toNat + instruction.span ∧
        address = max machine.index.toNat 4096 := by
  have asked (count : Nat) : machine.accessFault? count = some (.outOfBounds address) ↔
      4096 < machine.index.toNat + count ∧ address = max machine.index.toNat 4096 := by
    rw [accessFault?_eq_some_iff, Memory.missing, Fault.outOfBounds.injEq]
  cases instruction with
  | draw x y height => simp [refusal?, asked, Instruction.span]
  | storeDecimal x => simp [refusal?, asked, Instruction.span]
  | storeRegisters last => simp [refusal?, asked, Instruction.span]
  | loadRegisters last => simp [refusal?, asked, Instruction.span]
  | skip condition =>
    cases condition with
    | pressed x | released x =>
      simp only [refusal?, keyFault?, Instruction.span]
      split <;> simp
    | _ => simp [refusal?, Instruction.span]
  | ret | call target =>
    simp only [refusal?, Instruction.span]
    split <;> simp
  | _ => simp [refusal?, Instruction.span]

/-- The fault of a step is that a byte is missing exactly for the first byte that it accesses and
memory lacks, and for the place beyond memory where it would draw nothing. -/
theorem fault?_eq_outOfBounds_iff (machine : Machine) (address : Nat) :
    machine.fault? = some (.outOfBounds address) ↔
      machine.FirstMissing address ∨ machine.DrawsNothing ∧ address = machine.index.toNat := by
  by_cases inside : machine.pc.toNat ≤ 0xFFE
  · have fetched : machine.pc.toNat + 2 ≤ 4096 := Nat.add_le_add_right inside 2
    cases decoded : Instruction.ofOpcode? (machine.memory.opcode machine.pc.toNat fetched) with
    | none =>
      have unknown (instruction : Instruction) : machine.instruction ≠ .ok instruction := by
        simp [machine.instruction_of_inside fetched, decoded]
      have drawsSome : ¬ machine.DrawsNothing := by
        rintro ⟨x, y, height, draws, -⟩
        exact unknown _ draws
      rw [fault?, dif_pos inside]
      simp [decoded, not_firstMissing_of_unknown inside unknown, drawsSome]
    | some instruction =>
      have found : machine.instruction = .ok instruction :=
        (machine.instruction_eq_ok_iff _).mpr ⟨fetched, decoded⟩
      rw [fault?_of_instruction found, refusal?_eq_outOfBounds_iff,
        firstMissing_of_instruction found, drawsNothing_of_instruction found]
      -- Only of a sprite can the span be zero and memory be asked all the same.
      by_cases draws : ∃ x y height, instruction = .draw x y height
      · simp only [draws, true_and, or_true]
        omega
      · simp only [draws, false_and, or_false]
  · have drawsSome : ¬ machine.DrawsNothing := by
      rintro ⟨x, y, height, found, -⟩
      obtain ⟨fetched, -⟩ := (machine.instruction_eq_ok_iff _).mp found
      omega
    rw [fault?, dif_neg inside, firstMissing_of_outside inside, Option.some.injEq,
      Fault.outOfBounds.injEq]
    simp only [drawsSome, false_and, or_false]
    exact eq_comm

/-- A step that draws nothing beyond the end of memory accesses no byte that memory lacks. -/
theorem DrawsNothing.accesses_lt {machine : Machine} (drawsNothing : machine.DrawsNothing)
    {address : Nat} (accessed : machine.Accesses address) : address < 4096 := by
  obtain ⟨x, y, height, found, none, -⟩ := drawsNothing
  obtain ⟨offset, low⟩ | ⟨same, offset, low⟩ := accessed
  · obtain ⟨inside, -⟩ := (machine.instruction_eq_ok_iff _).mp found
    omega
  · obtain rfl := Except.ok.inj (found.symm.trans same)
    exact absurd low (by simp [Instruction.span, none])

end Machine

namespace Interpreter

/-- A step that accesses bytes which memory lacks faults with the first of them. The only other
steps that fault for a byte that memory lacks are those that draw nothing beyond the end of memory.
They access no such byte, and name the place where they would begin to draw. -/
theorem outOfBounds_iff_missing (interpreter : Interpreter) (random : UInt8) :
    (∀ address, (interpreter.step random).1 = .error (.outOfBounds address) ↔
      interpreter.machine.FirstMissing address ∨
        interpreter.machine.DrawsNothing ∧ address = interpreter.machine.index.toNat) ∧
    (∀ missing, interpreter.machine.Accesses missing → 4096 ≤ missing →
      ∃ address ≤ missing, (interpreter.step random).1 = .error (.outOfBounds address) ∧
        interpreter.machine.FirstMissing address) ∧
    (interpreter.machine.DrawsNothing →
      ∀ address, interpreter.machine.Accesses address → address < 4096) := by
  have faults (address : Nat) : (interpreter.step random).1 = .error (.outOfBounds address) ↔
      interpreter.machine.FirstMissing address ∨
        interpreter.machine.DrawsNothing ∧ address = interpreter.machine.index.toNat :=
    (interpreter.step_eq_error_iff random _).trans
      (interpreter.machine.fault?_eq_outOfBounds_iff address)
  refine ⟨faults, ?_, fun drawsNothing _ => drawsNothing.accesses_lt⟩
  intro missing accessed lacking
  obtain ⟨address, first⟩ := interpreter.machine.exists_firstMissing accessed lacking
  exact ⟨address, first.2 ⟨accessed, lacking⟩, (faults address).mpr (.inl first), first⟩

/-- An interpreter about to store two registers where memory has room for one. -/
def atEnd : Interpreter := (powerOn .standard).applyAll [.load [0xAF, 0xFF, 0xF1, 0x55], .step 0]

/-- The second register is what memory has no room for. -/
theorem outOfBounds_iff_missing_atEnd :
    atEnd.machine.FirstMissing 4096 ∧ (atEnd.step 0).1 = .error (.outOfBounds 4096) := by
  obtain ⟨found, index⟩ : atEnd.machine.instruction = .ok (.storeRegisters 1) ∧
      atEnd.machine.index.toNat = 4095 := by
    rw [Machine.instruction_eq_ok_iff]
    decide +kernel
  have first : atEnd.machine.FirstMissing 4096 := by
    rw [Machine.firstMissing_of_instruction found, index]
    decide
  obtain ⟨faults, -⟩ := atEnd.outOfBounds_iff_missing 0
  exact ⟨first, (faults 4096).mpr (.inl first)⟩

/-- An interpreter about to draw a sprite of no rows one place beyond the end of memory. -/
def beyondEnd : Interpreter :=
  (powerOn .standard).applyAll
    [.load [0xAF, 0xFF, 0x60, 0x02, 0xF0, 0x1E, 0xD0, 0x00], .step 0, .step 0, .step 0]

/-- The sprite has no byte that memory could lack, yet it is refused for want of one. -/
theorem outOfBounds_of_nothing_beyondEnd :
    beyondEnd.Reachable ∧ beyondEnd.machine.instruction = .ok (.draw 0 0 0) ∧
      (∀ address, beyondEnd.machine.Accesses address → address < 4096) ∧
      (beyondEnd.step 0).1 = .error (.outOfBounds 4097) := by
  obtain ⟨found, index⟩ : beyondEnd.machine.instruction = .ok (.draw 0 0 0) ∧
      beyondEnd.machine.index.toNat = 4097 := by
    rw [Machine.instruction_eq_ok_iff]
    decide +kernel
  have drawsNothing : beyondEnd.machine.DrawsNothing := ⟨0, 0, 0, found, rfl, by omega⟩
  refine ⟨?_, found, fun _ => drawsNothing.accesses_lt, ?_⟩
  · exact Reachable.standard.applyAll _
  · rw [step_eq_error_iff, Machine.fault?_eq_outOfBounds_iff]
    exact .inr ⟨drawsNothing, index.symm⟩

end Interpreter

end Chip8
