import Chip8.Proofs.Perform
import Chip8.Proofs.Cycle

/-!
# The faults of a step

`Machine.fault?` finds the fault of a step by looking at the machine alone: first whether an opcode
lies at the program counter, then whether it is an instruction, then what the instruction asks for.
A step faults exactly as found, before anything is changed, and succeeds when nothing is found. The
fetch, the decoder and the instructions each have a law of their own, and the order of the checks is
that in which they are put together.
-/

namespace Chip8

/-- Whether there are machines that refuse an instruction. -/
def Instruction.refusable : Instruction → Bool
  | .ret => true
  | .call _ => true
  | .skip (.pressed _) => true
  | .skip (.released _) => true
  | .draw _ _ _ => true
  | .storeDecimal _ => true
  | .storeRegisters _ => true
  | .loadRegisters _ => true
  | _ => false

namespace Machine

/-- The fault of an access to a number of bytes from the index on, if they reach past memory. -/
def accessFault? (machine : Machine) (count : Nat) : Option Fault :=
  if 4096 < machine.index.toNat + count then some (.outOfBounds (max machine.index.toNat 4096))
  else none

/-- The fault of asking for the key that a register names, if there is no such key. -/
def keyFault? (machine : Machine) (x : Register) : Option Fault :=
  if 15 < (machine.register x).toNat then some (.invalidKey (machine.register x)) else none

/-- The fault for which an instruction is not performed, if there is one. -/
def refusal? (machine : Machine) : Instruction → Option Fault
  | .ret => if machine.stack.depth = 0 then some (.stackUnderflow machine.pc) else none
  | .call _ => if machine.stack.depth = 16 then some (.stackOverflow machine.pc) else none
  | .skip (.pressed x) => machine.keyFault? x
  | .skip (.released x) => machine.keyFault? x
  | .draw _ _ height => machine.accessFault? height
  | .storeDecimal _ => machine.accessFault? 3
  | .storeRegisters last => machine.accessFault? (last + 1)
  | .loadRegisters last => machine.accessFault? (last + 1)
  | _ => none

/-- The fault of a step, if there is one: of the fetch, else of the opcode, else of the
instruction. -/
def fault? (machine : Machine) : Option Fault :=
  if inside : machine.pc.toNat ≤ 0xFFE then
    let opcode := machine.memory.opcode machine.pc.toNat (Nat.add_le_add_right inside 2)
    match Instruction.ofOpcode? opcode with
    | none => some (.unknownOpcode opcode machine.pc)
    | some instruction => machine.refusal? instruction
  else some (.outOfBounds (max machine.pc.toNat 4096))

/-- An instruction that no machine refuses is not refused. -/
theorem refusal?_of_not_refusable (machine : Machine) {instruction : Instruction}
    (safe : instruction.refusable = false) : machine.refusal? instruction = none := by
  cases instruction with
  | skip condition =>
    cases condition with
    | pressed x => cases safe
    | released x => cases safe
    | _ => rfl
  | ret => cases safe
  | call target => cases safe
  | draw x y height => cases safe
  | storeDecimal x => cases safe
  | storeRegisters last => cases safe
  | loadRegisters last => cases safe
  | _ => rfl

/-- Where there is an instruction, a step has no fault but that of the instruction. -/
theorem fault?_of_instruction {machine : Machine} {instruction : Instruction}
    (found : machine.instruction = .ok instruction) :
    machine.fault? = machine.refusal? instruction := by
  obtain ⟨fetched, decoded⟩ := (machine.instruction_eq_ok_iff instruction).mp found
  have inside : machine.pc.toNat ≤ 0xFFE := by omega
  rw [fault?, dif_pos inside]
  simp only [decoded]

/-- There is an access fault exactly when the bytes reach past memory, and it is that of the first
address that memory lacks. -/
theorem accessFault?_eq_some_iff (machine : Machine) (count : Nat) (fault : Fault) :
    machine.accessFault? count = some fault ↔
      4096 < machine.index.toNat + count ∧ fault = Memory.missing machine.index.toNat := by
  unfold accessFault?
  by_cases outside : 4096 < machine.index.toNat + count
  · rw [if_pos outside, Option.some.injEq, Memory.missing]
    exact ⟨fun same => ⟨outside, same.symm⟩, fun found => found.2.symm⟩
  · rw [if_neg outside]
    exact ⟨fun none => (by cases none), fun found => absurd found.1 outside⟩

/-- There is a key fault exactly when the byte in the register names no key. -/
theorem keyFault?_eq_some_iff (machine : Machine) (x : Register) (fault : Fault) :
    machine.keyFault? x = some fault ↔ Key.ofByte (machine.register x) = .error fault := by
  unfold keyFault? Key.ofByte
  by_cases named : (machine.register x).toNat < 16
  · rw [if_neg (by omega), dif_pos named]
    simp only [reduceCtorEq]
  · rw [if_pos (by omega), dif_neg named, Option.some.injEq, Except.error.injEq]

/-- An instruction faults exactly as it is refused. -/
theorem perform_eq_error_iff (machine : Machine) (inputs : Inputs) (instruction : Instruction)
    (fault : Fault) :
    machine.perform inputs instruction = .error fault ↔
      machine.refusal? instruction = some fault := by
  cases instruction with
  | ret =>
    rw [perform, refusal?]
    cases popped : machine.stack.pop? with
    | none =>
      have empty : machine.stack.depth = 0 := machine.stack.pop?_eq_none_iff.mp popped
      rw [if_pos empty, Except.error.injEq, Option.some.injEq]
    | some result =>
      have used : ¬ machine.stack.depth = 0 := by
        rw [← CallStack.pop?_eq_none_iff, popped]
        exact Option.some_ne_none _
      rw [if_neg used]
      simp only [reduceCtorEq]
  | call target =>
    rw [perform, refusal?]
    cases pushed : machine.stack.push? machine.pc with
    | none =>
      have full : machine.stack.depth = 16 := (machine.stack.push?_eq_none_iff _).mp pushed
      rw [if_pos full, Except.error.injEq, Option.some.injEq]
    | some stack =>
      have room : ¬ machine.stack.depth = 16 := by
        rw [← CallStack.push?_eq_none_iff _ machine.pc, pushed]
        exact Option.some_ne_none _
      rw [if_neg room]
      simp only [reduceCtorEq]
  | skip condition =>
    rw [perform, map_eq_error_iff]
    cases condition with
    | pressed x => rw [test, map_eq_error_iff, refusal?, keyFault?_eq_some_iff]
    | released x => rw [test, map_eq_error_iff, refusal?, keyFault?_eq_some_iff]
    | _ => simp only [test, refusal?, reduceCtorEq]
  | draw x y height =>
    rw [perform, map_eq_error_iff, Memory.read_eq_error_iff, refusal?, accessFault?_eq_some_iff]
  | awaitKey x =>
    rw [perform]
    split
    · simp only [refusal?, reduceCtorEq]
    · simp only [refusal?, reduceCtorEq]
  | storeDecimal x =>
    rw [perform, map_eq_error_iff, Memory.write_eq_error_iff, refusal?, accessFault?_eq_some_iff]
    rfl
  | storeRegisters last =>
    have length : (machine.registers.toList.take (last + 1)).length = last + 1 := by
      rw [List.length_take, Vector.length_toList]
      omega
    rw [perform, map_eq_error_iff, Memory.write_eq_error_iff, length, refusal?,
      accessFault?_eq_some_iff]
  | loadRegisters last =>
    rw [perform, map_eq_error_iff, Memory.read_eq_error_iff, refusal?, accessFault?_eq_some_iff]
  | _ =>
    -- The instructions that are left are never refused.
    simp only [perform, refusal?, reduceCtorEq]

/-- A cycle faults exactly as found. -/
theorem cycle_eq_error_iff_fault? (machine : Machine) (inputs : Inputs) (fault : Fault) :
    machine.cycle inputs = .error fault ↔ machine.fault? = some fault := by
  rw [cycle_eq_error_iff]
  by_cases inside : machine.pc.toNat ≤ 0xFFE
  · have fetched : machine.pc.toNat + 2 ≤ 4096 := by omega
    rw [fault?, dif_pos inside, machine.instruction_of_inside fetched]
    generalize machine.memory.opcode machine.pc.toNat fetched = opcode
    cases decoded : Instruction.ofOpcode? opcode with
    | none =>
      simp only [decoded, Except.error.injEq, reduceCtorEq, false_and, exists_false, or_false,
        Option.some.injEq]
    | some instruction =>
      simp only [decoded, reduceCtorEq, Except.ok.injEq, exists_eq_left', false_or]
      exact machine.perform_eq_error_iff inputs instruction fault
  · have missed : 4096 < machine.pc.toNat + 2 := by omega
    rw [fault?, dif_neg inside, machine.instruction_of_outside missed, Memory.missing]
    simp only [Except.error.injEq, reduceCtorEq, false_and, exists_false, or_false,
      Option.some.injEq]

end Machine

namespace Interpreter

/-- A step faults exactly as its cycle does. -/
theorem step_eq_error_iff (interpreter : Interpreter) (random : UInt8) (fault : Fault) :
    (interpreter.step random).1 = .error fault ↔ interpreter.machine.fault? = some fault := by
  rw [← Machine.cycle_eq_error_iff_fault? _ (interpreter.inputs random)]
  unfold step
  cases interpreter.machine.cycle (interpreter.inputs random) with
  | error found => simp only [Except.error.injEq]
  | ok result => simp only [reduceCtorEq]

/-- A step for which there is no fault succeeds. -/
theorem step_of_fault?_eq_none {interpreter : Interpreter}
    (sound : interpreter.machine.fault? = none) (random : UInt8) :
    ∃ outcome, (interpreter.step random).1 = .ok outcome := by
  cases stepped : (interpreter.step random).1 with
  | error fault =>
    rw [step_eq_error_iff, sound] at stepped
    cases stepped
  | ok outcome => exact ⟨outcome, rfl⟩

/-- A step faults exactly as the machine shows before it, and a step that faults changes nothing at
all. Every other step succeeds, and so does every step of an instruction that no machine refuses. -/
theorem step_faults (interpreter : Interpreter) (random : UInt8) :
    (∀ fault, (interpreter.step random).1 = .error fault ↔
      interpreter.machine.fault? = some fault) ∧
    (∀ fault, (interpreter.step random).1 = .error fault →
      (interpreter.step random).2 = interpreter) ∧
    (interpreter.machine.fault? = none → ∃ outcome, (interpreter.step random).1 = .ok outcome) ∧
    (∀ instruction, interpreter.machine.instruction = .ok instruction →
      instruction.refusable = false → ∃ outcome, (interpreter.step random).1 = .ok outcome) := by
  refine ⟨interpreter.step_eq_error_iff random, ?_, ?_, ?_⟩
  · intro fault failed
    obtain ⟨found, -, same⟩ | ⟨instruction, next, -, -, same⟩ := interpreter.step_cases random
    · rw [same]
    · rw [same] at failed
      cases failed
  · intro sound
    exact step_of_fault?_eq_none sound random
  · intro instruction found safe
    apply step_of_fault?_eq_none
    rw [Machine.fault?_of_instruction found]
    exact interpreter.machine.refusal?_of_not_refusable safe

end Interpreter

end Chip8
