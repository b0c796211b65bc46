import Chip8.Interpreter.Command

/-!
# Where a cycle comes from

A cycle succeeds exactly when the opcode at the program counter lies in memory, is an instruction,
and that instruction is performed. These laws take the three apart once, so that no later proof has
to open `fetch`, `instruction`, `cycle` or `step` again.
-/

namespace Chip8

/-- The opcode that memory holds at an address with two bytes left. -/
def Memory.opcode (memory : Memory) (address : Nat) (inside : address + 2 ≤ 4096) : Opcode :=
  .ofBytes memory.bytes[address] memory.bytes[address + 1]

namespace Machine

/-- An opcode that lies in memory is fetched from there. -/
theorem fetch_of_inside (machine : Machine) (inside : machine.pc.toNat + 2 ≤ 4096) :
    machine.fetch = .ok (machine.memory.opcode machine.pc.toNat inside) := by
  rw [fetch, Memory.read, dif_pos inside]
  simp [Except.map, Memory.opcode]

/-- An opcode that reaches past the end of memory is not fetched. -/
theorem fetch_of_outside (machine : Machine) (outside : 4096 < machine.pc.toNat + 2) :
    machine.fetch = .error (Memory.missing machine.pc.toNat) := by
  rw [fetch, Memory.read, dif_neg (by omega)]
  rfl

/-- The instruction of an opcode that lies in memory is the one that the opcode is. -/
theorem instruction_of_inside (machine : Machine) (inside : machine.pc.toNat + 2 ≤ 4096) :
    machine.instruction =
      match Instruction.ofOpcode? (machine.memory.opcode machine.pc.toNat inside) with
      | none =>
        .error (.unknownOpcode (machine.memory.opcode machine.pc.toNat inside) machine.pc)
      | some instruction => .ok instruction := by
  have fetched := machine.fetch_of_inside inside
  cases decoded : Instruction.ofOpcode? (machine.memory.opcode machine.pc.toNat inside) with
  | none => simp only [instruction, fetched, decoded]
  | some found => simp only [instruction, fetched, decoded]

/-- Past the end of memory there is no instruction. -/
theorem instruction_of_outside (machine : Machine) (outside : 4096 < machine.pc.toNat + 2) :
    machine.instruction = .error (Memory.missing machine.pc.toNat) := by
  rw [instruction, machine.fetch_of_outside outside]

/-- There is an instruction exactly when the opcode lies in memory and is one. -/
theorem instruction_eq_ok_iff (machine : Machine) (instruction : Instruction) :
    machine.instruction = .ok instruction ↔
      ∃ inside : machine.pc.toNat + 2 ≤ 4096,
        Instruction.ofOpcode? (machine.memory.opcode machine.pc.toNat inside) =
          some instruction := by
  by_cases inside : machine.pc.toNat + 2 ≤ 4096
  · rw [machine.instruction_of_inside inside, exists_prop_of_true inside]
    cases Instruction.ofOpcode? (machine.memory.opcode machine.pc.toNat inside) with
    | none => simp only [reduceCtorEq]
    | some found => simp only [Except.ok.injEq, Option.some.injEq]
  · rw [machine.instruction_of_outside (by omega)]
    exact ⟨fun same => (by cases same), fun ⟨there, _⟩ => absurd there inside⟩

/-- What instruction comes next depends on the memory and the program counter alone. -/
theorem instruction_congr {left right : Machine} (memory : left.memory = right.memory)
    (pc : left.pc = right.pc) : left.instruction = right.instruction := by
  simp only [instruction, fetch, memory, pc]

/-- A cycle succeeds exactly when there is an instruction and it is performed. -/
theorem cycle_eq_ok_iff (machine next : Machine) (inputs : Inputs) (instruction : Instruction) :
    machine.cycle inputs = .ok (instruction, next) ↔
      machine.instruction = .ok instruction ∧ machine.perform inputs instruction = .ok next := by
  unfold cycle
  cases machine.instruction with
  | error fault => simp only [reduceCtorEq, false_and]
  | ok found =>
    simp only [Except.ok.injEq]
    constructor
    · intro cycled
      cases performed : machine.perform inputs found with
      | error fault =>
        rw [performed] at cycled
        cases cycled
      | ok left =>
        rw [performed] at cycled
        cases cycled
        exact ⟨rfl, performed⟩
    · rintro ⟨rfl, performed⟩
      rw [performed]
      rfl

/-- A cycle faults exactly when there is no instruction or it is not performed, with the fault of
the first of them. -/
theorem cycle_eq_error_iff (machine : Machine) (inputs : Inputs) (fault : Fault) :
    machine.cycle inputs = .error fault ↔
      machine.instruction = .error fault ∨
        ∃ instruction, machine.instruction = .ok instruction ∧
          machine.perform inputs instruction = .error fault := by
  unfold cycle
  cases machine.instruction with
  | error found => simp only [Except.error.injEq, reduceCtorEq, false_and, exists_false, or_false]
  | ok found =>
    simp only [reduceCtorEq, Except.ok.injEq, exists_eq_left', false_or]
    cases machine.perform inputs found with
    | error other => simp only [Except.map, Except.error.injEq]
    | ok left => simp only [Except.map, reduceCtorEq]

end Machine

namespace Interpreter

/-- A step either faults and leaves the interpreter as it is, or leaves it with the machine that
the instruction at the program counter leaves. -/
theorem step_cases (interpreter : Interpreter) (random : UInt8) :
    (∃ fault, interpreter.machine.cycle (interpreter.inputs random) = .error fault ∧
        interpreter.step random = (.error fault, interpreter)) ∨
      ∃ instruction next,
        interpreter.machine.instruction = .ok instruction ∧
        interpreter.machine.perform (interpreter.inputs random) instruction = .ok next ∧
        interpreter.step random =
          (.ok (match next.awaiting with
            | some x => .awaiting x
            | none => .executed instruction), { interpreter with machine := next }) := by
  unfold step
  cases cycled : interpreter.machine.cycle (interpreter.inputs random) with
  | error fault => exact .inl ⟨fault, rfl, rfl⟩
  | ok result =>
    obtain ⟨instruction, next⟩ := result
    obtain ⟨found, performed⟩ := (Machine.cycle_eq_ok_iff _ _ _ _).mp cycled
    exact .inr ⟨instruction, next, found, performed, rfl⟩

/-- A step that faults leaves the interpreter as it is. -/
theorem step_left_of_error {interpreter : Interpreter} {random : UInt8} {fault : Fault}
    (failed : (interpreter.step random).1 = .error fault) :
    (interpreter.step random).2 = interpreter := by
  obtain ⟨found, -, same⟩ | ⟨instruction, next, -, -, same⟩ := interpreter.step_cases random
  · rw [same]
  · rw [same] at failed
    cases failed

/-- A program is refused while another one is there, however long it is. -/
theorem load_of_loaded {interpreter : Interpreter} (loaded : interpreter.loaded = true)
    (program : List UInt8) :
    interpreter.load program = (.error .alreadyLoaded, interpreter) := by
  rw [load, if_pos loaded]

/-- A program that does not fit is refused. -/
theorem load_of_large {interpreter : Interpreter} (empty : interpreter.loaded = false)
    {program : List UInt8} (large : 3584 < program.length) :
    interpreter.load program = (.error (.tooLarge program.length 3584), interpreter) := by
  have limit : Memory.programLimit = 3584 := by decide
  rw [load, empty, if_neg Bool.false_ne_true, limit, if_pos large]

/-- A program that fits is taken by an interpreter that has none, and written into its memory. -/
theorem load_of_small {interpreter : Interpreter} (empty : interpreter.loaded = false)
    {program : List UInt8} (small : program.length ≤ 3584) :
    interpreter.load program = (.ok (), { interpreter with
      machine.memory := ⟨overwrite 512 program interpreter.machine.memory.bytes⟩
      loaded := true }) := by
  have limit : Memory.programLimit = 3584 := by decide
  rw [load, empty, if_neg Bool.false_ne_true, limit, if_neg (Nat.not_lt.mpr small)]
  rfl

/-- Loading either refuses the program and leaves the interpreter as it is, or writes the program
into the memory of an interpreter that has none. -/
theorem load_cases (interpreter : Interpreter) (program : List UInt8) :
    (∃ fault, interpreter.load program = (.error fault, interpreter)) ∨
      (interpreter.loaded = false ∧ program.length ≤ 3584 ∧
        interpreter.load program = (.ok (), { interpreter with
          machine.memory := ⟨overwrite 512 program interpreter.machine.memory.bytes⟩
          loaded := true })) := by
  cases loaded : interpreter.loaded with
  | true => exact .inl ⟨_, load_of_loaded loaded program⟩
  | false =>
    by_cases large : 3584 < program.length
    · exact .inl ⟨_, load_of_large loaded large⟩
    · have small : program.length ≤ 3584 := Nat.le_of_not_lt large
      exact .inr ⟨rfl, small, load_of_small loaded small⟩

/-- Loading touches nothing of the machine but its memory. -/
theorem machine_load (interpreter : Interpreter) (program : List UInt8) :
    ∃ memory, (interpreter.load program).2.machine = { interpreter.machine with memory } := by
  obtain ⟨fault, same⟩ | ⟨-, -, same⟩ := interpreter.load_cases program
  · exact ⟨interpreter.machine.memory, by rw [same]⟩
  · exact ⟨_, congrArg (fun loaded => loaded.2.machine) same⟩

/-- A program of no more than the limit is loaded at power-on. -/
theorem load_powerOn (settings : Settings) (program : List UInt8) (small : program.length ≤ 3584) :
    ((powerOn settings).load program).2 = { powerOn settings with
      machine.memory := ⟨overwrite 512 program Memory.initial.bytes⟩
      loaded := true } := by
  have empty : (powerOn settings).loaded = false := rfl
  rw [load_of_small empty small]
  rfl

/-- A program that is loaded at power-on starts with its first two bytes. -/
theorem opcode_load_powerOn (high low : UInt8) (rest : List UInt8) :
    Memory.opcode ⟨overwrite 512 (high :: low :: rest) Memory.initial.bytes⟩ 512 (by decide) =
      .ofBytes high low := by
  have first : (overwrite 512 (high :: low :: rest) Memory.initial.bytes)[512] = high := by
    rw [getElem_overwrite, if_pos (by decide)]
    rfl
  have second : (overwrite 512 (high :: low :: rest) Memory.initial.bytes)[513] = low := by
    rw [getElem_overwrite, if_pos (by decide)]
    rfl
  rw [Memory.opcode, first, second]

/-- The first instruction of a program that is loaded at power-on comes next. -/
theorem instruction_load_powerOn (settings : Settings) {high low : UInt8} {rest : List UInt8}
    (small : rest.length ≤ 3582) {instruction : Instruction}
    (decoded : Instruction.ofOpcode? (.ofBytes high low) = some instruction) :
    ((powerOn settings).load (high :: low :: rest)).2.machine.instruction = .ok instruction := by
  have fits : (high :: low :: rest).length ≤ 3584 := by
    rw [List.length_cons, List.length_cons]
    omega
  have inside : 512 + 2 ≤ 4096 := by decide
  rw [load_powerOn settings _ fits, Machine.instruction_eq_ok_iff]
  refine ⟨inside, ?_⟩
  rw [← decoded]
  exact congrArg Instruction.ofOpcode? (opcode_load_powerOn high low rest)

/-- A command that puts a key down or up touches nothing but the keys. -/
theorem setKey_cases (interpreter : Interpreter) (byte : UInt8) (isDown : Bool) :
    ∃ keys, (interpreter.setKey byte isDown).2 = { interpreter with keys } := by
  unfold setKey
  cases Key.ofByte byte with
  | error fault => exact ⟨interpreter.keys, rfl⟩
  | ok key => exact ⟨_, rfl⟩

/-- It leaves the machine as it is. -/
theorem machine_setKey (interpreter : Interpreter) (byte : UInt8) (isDown : Bool) :
    (interpreter.setKey byte isDown).2.machine = interpreter.machine := by
  obtain ⟨keys, same⟩ := interpreter.setKey_cases byte isDown
  rw [same]

/-- It leaves the settings as they are. -/
theorem settings_setKey (interpreter : Interpreter) (byte : UInt8) (isDown : Bool) :
    (interpreter.setKey byte isDown).2.settings = interpreter.settings := by
  obtain ⟨keys, same⟩ := interpreter.setKey_cases byte isDown
  rw [same]

/-- Taking the frame touches nothing but the note that the frame is to be taken. -/
theorem takeFrame_cases (interpreter : Interpreter) :
    interpreter.takeFrame.2 = { interpreter with machine.redraw := false } := by
  obtain ⟨machine, keys, settings, loaded⟩ := interpreter
  obtain ⟨registers, index, pc, stack, delay, sound, memory, frame, redraw, awaiting⟩ := machine
  cases redraw with
  | true => rfl
  | false => rfl

end Interpreter

end Chip8
