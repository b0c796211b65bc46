import Chip8.Proofs.Flat.Drawing
import Chip8.Proofs.ReturnAddresses

/-!
# The flat interpreter never breaks

Laid out in words and arrays, a reachable interpreter does what it does, command by command. Each
check of the flat interpreter is met by a bound that is known of the interpreter: a fetched opcode
lies in memory, so the program counter has room to move on; a return address was such a program
counter; an operand names one of sixteen registers; the dots of a sprite fall on the display.

An instruction is performed alike on any machine, reachable or not, on which it has room
(`perform_flat`).
-/

namespace Chip8

/-- The keys that a byte of the pad says are down. -/
theorem Keys.getElem?_cells (keys : Keys) (key : Nat) (inside : key < 16) :
    keys.cells[key]? = some (if keys.isDown ⟨key, inside⟩ then 1 else 0) := by
  rw [cells, Vector.getElem?_map, Vector.getElem?_eq_getElem inside]
  rfl

/-- The released pad is all zeros. -/
theorem Keys.cells_released : Keys.released.cells = Vector.replicate 16 0 := by
  rw [cells, released, Vector.map_replicate]
  rfl

/-- The lowest byte of the pad that is not zero is the one of the lowest key that is down. -/
theorem Keys.find?_cells (keys : Keys) :
    ((List.range 16).find? fun key => keys.cells[key]?.any (· ≠ 0)) =
      keys.lowest?.map fun key => key.val := by
  have places : List.range 16 = (List.finRange 16).map fun key => key.val := by decide
  have agree : ((fun key => keys.cells[key]?.any (· ≠ 0)) ∘ fun key : Fin 16 => key.val) =
      keys.isDown := by
    funext key
    show keys.cells[key.val]?.any _ = keys.isDown key
    rw [keys.getElem?_cells key key.isLt]
    cases keys.isDown key with
    | false => rfl
    | true => rfl
  rw [places, List.find?_map, agree, lowest?]

/-- The blank frame is all zeros. -/
theorem Frame.cells_blank : Frame.blank.cells = Vector.replicate 2048 0 := by
  refine Shows.unique (shows_cells _) ?_
  intro x y
  rw [Vector.getElem_replicate, Frame.lit_blank]
  rfl

namespace Flat

/-- The sum of two words is a word exactly where they can be added without wrapping around. -/
theorem sum16_eq_ok_iff (left right total : UInt16) :
    sum16 left right = .ok total ↔
      left.toNat + right.toNat < 65536 ∧ left + right = total := by
  unfold sum16
  split
  case isTrue small => simp [small]
  case isFalse large => simp [large]

/-- A range that stays in memory is reached. -/
theorem reach_of_inside {start count : Nat} (inside : start + count ≤ 4096) :
    reach start count = .ok (start + count) := by
  rw [reach, size_of_lt (by omega), ok_bind, if_neg (by omega)]

/-- A range that reaches past memory is a fault, as it is for the interpreter. -/
theorem reach_of_outside {start count : Nat} (outside : 4096 < start + count)
    (small : start + count < 4294967296) :
    reach start count = .error (.fault (Memory.missing start)) := by
  rw [reach, size_of_lt small, ok_bind, if_pos outside]

/-- A slice of memory is what a read gives. -/
theorem slice_memory (memory : Memory) {start count : Nat} (inside : start + count ≤ 4096) :
    slice memory.bytes.toList start (start + count) =
      .ok (memory.range start count inside).toList := by
  rw [slice, Vector.length_toList, if_pos ⟨by omega, inside⟩]
  refine congrArg Except.ok ?_
  apply List.ext_getElem
  · simp only [List.length_drop, List.length_take, Vector.length_toList]
    omega
  · intro place here there
    rw [List.getElem_drop, List.getElem_take, Vector.getElem_toList, Vector.getElem_toList,
      Memory.getElem_range]

/-- Bytes pasted into memory are bytes written over it. -/
theorem paste_memory (memory : Memory) {start : Nat} {bytes : List UInt8}
    (inside : start + bytes.length ≤ 4096) :
    paste memory.bytes start (start + bytes.length) bytes =
      .ok (overwrite start bytes memory.bytes) := by
  rw [paste, if_pos ⟨by omega, inside, by omega⟩]
  refine congrArg Except.ok ?_
  apply Vector.ext
  intro place low
  rw [Vector.getElem_ofFn, getElem_overwrite]
  rfl

/-- Bytes pasted over the first registers replace these. -/
theorem paste_registers {count : Nat} (registers : Vector UInt8 16) (bytes : Vector UInt8 count)
    (few : count ≤ 16) :
    paste registers 0 count bytes.toList = .ok (Machine.withFirst registers bytes) := by
  rw [paste, if_pos ⟨Nat.zero_le _, few, by rw [Vector.length_toList, Nat.sub_zero]⟩]
  refine congrArg Except.ok ?_
  apply Vector.ext
  intro x low
  rw [Machine.withFirst, Vector.getElem_ofFn, Vector.getElem_ofFn, if_pos (Nat.zero_le _),
    Nat.sub_zero, Vector.getElem?_toList]
  rfl

end Flat

namespace Interpreter

open Flat

/-- What becomes of the flat interpreter when the machine becomes what it does. -/
def flatten (interpreter : Interpreter) : Except Fault Machine → Except Stop Flat
  | .ok machine => .ok { interpreter with machine }.flat
  | .error fault => .error (.fault fault)

variable (interpreter : Interpreter)

/-- A register is read from its place. -/
theorem register_flat (x : Register) :
    interpreter.flat.register x = .ok (interpreter.machine.register x) :=
  entry_toList interpreter.machine.registers x x.isLt

/-- The count of the slots in use is the depth of the stack. -/
theorem toNat_depth_flat : interpreter.flat.depth.toNat = interpreter.machine.stack.depth := by
  have bound := interpreter.machine.stack.depth_le
  show (UInt8.ofNat interpreter.machine.stack.depth).toNat = interpreter.machine.stack.depth
  rw [UInt8.toNat_ofNat']
  omega

/-- A key is looked up by the byte in a register, which is a fault if it names none. -/
theorem keyDown_flat (x : Register) :
    interpreter.flat.keyDown x =
      match Key.ofByte (interpreter.machine.register x) with
      | .ok key => .ok (interpreter.keys.isDown key)
      | .error fault => .error (.fault fault) := by
  rw [keyDown, register_flat, ok_bind, keys_flat, Key.ofByte]
  by_cases inside : (interpreter.machine.register x).toNat < 16
  · rw [interpreter.keys.getElem?_cells _ inside, dif_pos inside]
    show Except.ok (decide ((if interpreter.keys.isDown ⟨_, inside⟩ = true then (1 : UInt8) else 0)
      ≠ 0)) = Except.ok (interpreter.keys.isDown ⟨_, inside⟩)
    cases interpreter.keys.isDown ⟨_, inside⟩ with
    | false => rfl
    | true => rfl
  · rw [Vector.getElem?_eq_none (by omega), dif_neg inside]

/-- A condition is tested as it is on the machine. -/
theorem test_flat (condition : Condition) :
    interpreter.flat.test condition =
      match interpreter.machine.test interpreter.keys condition with
      | .ok holds => .ok holds
      | .error fault => .error (.fault fault) := by
  cases condition with
  | holds x byte =>
    rw [Flat.test, register_flat, ok_bind]
    rfl
  | lacks x byte =>
    rw [Flat.test, register_flat, ok_bind]
    rfl
  | equal x y =>
    rw [Flat.test, register_flat, ok_bind, register_flat, ok_bind]
    rfl
  | different x y =>
    rw [Flat.test, register_flat, ok_bind, register_flat, ok_bind]
    rfl
  | pressed x =>
    rw [Flat.test, keyDown_flat, Machine.test]
    cases Key.ofByte (interpreter.machine.register x) with
    | error fault => rfl
    | ok key => rfl
  | released x =>
    rw [Flat.test, keyDown_flat, Machine.test]
    cases Key.ofByte (interpreter.machine.register x) with
    | error fault => rfl
    | ok key => rfl

/-- A return finds its address on the stack, where a call left it, and goes on two bytes from there
if these can be added. -/
theorem ret_flat {caller : UInt16} {rest : CallStack}
    (popped : interpreter.machine.stack.pop? = some (caller, rest)) (random : UInt8) :
    interpreter.flat.perform random .ret =
      (sum16 caller 2).map fun pc =>
        { interpreter with machine := { interpreter.machine with stack := rest, pc } }.flat := by
  have depth := interpreter.toNat_depth_flat
  have bound := interpreter.machine.stack.depth_le
  have one : (1 : UInt8).toNat = 1 := rfl
  rw [CallStack.pop?] at popped
  split at popped
  case isFalse => cases popped
  case isTrue used =>
    cases popped
    have nonzero : interpreter.flat.depth ≠ 0 := by
      intro zero
      rw [zero] at depth
      exact absurd depth (Nat.ne_of_lt used)
    have fewer : interpreter.flat.depth - 1 =
        UInt8.ofNat (interpreter.machine.stack.depth - 1) := by
      apply UInt8.toNat_inj.mp
      rw [UInt8.toNat_sub_of_le _ _ (UInt8.le_iff_toNat_le.mpr (by omega)), depth, one,
        UInt8.toNat_ofNat']
      omega
    have place : (UInt8.ofNat (interpreter.machine.stack.depth - 1)).toNat =
        interpreter.machine.stack.depth - 1 := by
      rw [UInt8.toNat_ofNat']
      omega
    rw [Flat.perform, if_neg nonzero, difference8, if_pos (by omega), ok_bind, fewer, place]
    show (entry interpreter.machine.stack.slots.toList _ >>= _) = _
    rw [entry_toList _ _ (by omega), ok_bind]
    cases sum16 _ 2 with
    | error stop => rfl
    | ok pc => rfl

/-- A return from nowhere is a fault. -/
theorem ret_flat_of_empty (popped : interpreter.machine.stack.pop? = none) (random : UInt8) :
    interpreter.flat.perform random .ret =
      .error (.fault (.stackUnderflow interpreter.machine.pc)) := by
  have depth := interpreter.toNat_depth_flat
  rw [CallStack.pop?] at popped
  split at popped
  case isTrue => cases popped
  case isFalse empty =>
    have zero : interpreter.flat.depth = 0 := by
      apply UInt8.toNat_inj.mp
      rw [depth]
      exact Nat.eq_zero_of_not_pos empty
    rw [Flat.perform, if_pos zero]
    rfl

/-- A call finds a free slot, or the stack is full. -/
theorem call_flat (random : UInt8) (target : Address) :
    interpreter.flat.perform random (.call target) =
      interpreter.flatten (interpreter.machine.perform (interpreter.inputs random)
        (.call target)) := by
  have depth := interpreter.toNat_depth_flat
  have one : (1 : UInt8).toNat = 1 := rfl
  rw [Flat.perform, Machine.perform, depth]
  by_cases room : interpreter.machine.stack.depth < 16
  · have pushed : interpreter.machine.stack.push? interpreter.machine.pc =
        some ⟨interpreter.machine.stack.slots.set interpreter.machine.stack.depth
          interpreter.machine.pc, interpreter.machine.stack.depth + 1, room⟩ := by
      rw [CallStack.push?, dif_pos room]
    have more : interpreter.flat.depth + 1 = UInt8.ofNat (interpreter.machine.stack.depth + 1) := by
      apply UInt8.toNat_inj.mp
      rw [UInt8.toNat_add, depth, one, UInt8.toNat_ofNat']
    rw [if_neg (by omega), pushed]
    show (put interpreter.machine.stack.slots _ interpreter.machine.pc >>= _) = _
    rw [put_of_lt _ _ _ room, ok_bind, sum8, if_pos (by omega), more]
    rfl
  · have pushed : interpreter.machine.stack.push? interpreter.machine.pc = none := by
      rw [CallStack.push?, dif_neg room]
    rw [if_pos (by omega), pushed]
    rfl

/-- The glyph of a digit lies where words reach. -/
theorem toNat_glyph_lt (byte : UInt8) :
    (byte &&& 0xF).toUInt16.toNat * Memory.glyphHeight.toNat < 65536 ∧
      Memory.fontStart.toNat + ((byte &&& 0xF).toUInt16 * Memory.glyphHeight).toNat < 65536 := by
  have digit : (byte &&& 0xF).toUInt16.toNat ≤ 15 := by
    rw [UInt8.toNat_toUInt16, UInt8.toNat_and]
    exact Nat.and_le_right
  have height : Memory.glyphHeight.toNat = 5 := rfl
  have start : Memory.fontStart.toNat = 80 := rfl
  rw [UInt16.toNat_mul, height, start]
  have product : (byte &&& 0xF).toUInt16.toNat * 5 < 2 ^ 16 := by omega
  rw [Nat.mod_eq_of_lt product]
  omega

section Room

variable (room : interpreter.machine.pc.toNat < 0xFFFE)
include room

/-- A program counter that has room moves on. -/
theorem next_flat : interpreter.flat.next = .ok interpreter.machine.advance.pc :=
  (sum16_eq_ok_iff _ _ _).mpr ⟨Nat.add_lt_add_right room 2, rfl⟩

/-- A byte is put into a register as it is on the machine. -/
theorem setRegister_flat (x : Register) (byte : UInt8) :
    interpreter.flat.setRegister x byte =
      .ok { interpreter with machine := interpreter.machine.advance.setRegister x byte }.flat := by
  rw [Flat.setRegister, put_of_lt _ _ _ x.isLt, ok_bind, next_flat _ room]
  rfl

/-- So is a byte with the flag. -/
theorem setFlagged_flat (x : Register) (byte : UInt8) (raised : Bool) :
    interpreter.flat.setFlagged x byte raised =
      .ok { interpreter with
        machine := interpreter.machine.advance.setFlagged x byte raised }.flat := by
  rw [Flat.setFlagged, put_of_lt _ _ _ x.isLt, ok_bind, put_of_lt _ _ _ (by decide), ok_bind,
    next_flat _ room]
  rfl

/-- Bytes are stored as they are by the machine, or fault as they do there. -/
theorem store_flat (bytes : List UInt8) (few : bytes.length ≤ 16) :
    interpreter.flat.store bytes =
      interpreter.flatten ((interpreter.machine.memory.write interpreter.machine.index.toNat
        bytes).map fun memory => { interpreter.machine.advance with memory }) := by
  have bound := interpreter.machine.index.toNat_lt
  rw [store, next_flat _ room, ok_bind, index_flat]
  by_cases fits : interpreter.machine.index.toNat + bytes.length ≤ 4096
  · rw [reach_of_inside fits, ok_bind, Memory.write_of_inside _ fits]
    show (paste interpreter.machine.memory.bytes _ _ _ >>= _) = _
    rw [paste_memory _ fits]
    rfl
  · rw [reach_of_outside (by omega) (by omega), Memory.write, if_neg fits]
    rfl

/-- A sprite is drawn dot by dot as it is on the machine at once. -/
theorem draw_flat (random : UInt8) (x y : Register) (height : Fin 16) :
    interpreter.flat.draw x y height =
      interpreter.flatten (interpreter.machine.perform (interpreter.inputs random)
        (.draw x y height)) := by
  have bound := interpreter.machine.index.toNat_lt
  have edge : interpreter.flat.settings.edge = (interpreter.inputs random).edge := rfl
  rw [draw, Machine.perform, index_flat, memory_flat, registers_flat, pixels_flat, edge]
  by_cases fits : interpreter.machine.index.toNat + height ≤ 4096
  · rw [reach_of_inside fits, ok_bind, slice_memory _ fits, ok_bind, register_flat, ok_bind,
      register_flat, ok_bind, put_of_lt _ _ _ (by decide), ok_bind, Memory.read_of_inside _ fits,
      foldlM_drawDot_cells _ _ _ _ _ (by rw [Vector.length_toList]; omega), ok_bind,
      next_flat _ room]
    show _ = interpreter.flatten (.ok (interpreter.machine.advance.stamp (.ofSprite _ _ _ _)))
    generalize Frame.ofSprite _ _ _ _ = mask
    have flags : (if interpreter.machine.frame.meets mask then
          (interpreter.machine.registers.set 15 0).set 15 1
        else interpreter.machine.registers.set 15 0) =
        interpreter.machine.registers.set 15
          (if interpreter.machine.frame.meets mask then 1 else 0) := by
      cases interpreter.machine.frame.meets mask with
      | false => rfl
      | true =>
        rw [if_pos rfl, if_pos rfl, Vector.set_set]
    rw [flags]
    rfl
  · rw [reach_of_outside (by omega) (by omega), Memory.read, dif_neg fits]
    rfl

/-- Registers are loaded as they are by the machine, or fault as they do there. -/
theorem loadRegisters_flat (random : UInt8) (last : Register) :
    interpreter.flat.perform random (.loadRegisters last) =
      interpreter.flatten (interpreter.machine.perform (interpreter.inputs random)
        (.loadRegisters last)) := by
  have bound := interpreter.machine.index.toNat_lt
  rw [Flat.perform, Machine.perform, size_of_lt (by omega), ok_bind, index_flat, memory_flat,
    registers_flat]
  by_cases fits : interpreter.machine.index.toNat + (last.val + 1) ≤ 4096
  · rw [reach_of_inside fits, ok_bind, slice_memory _ fits, ok_bind, Memory.read_of_inside _ fits,
      paste_registers _ _ (by omega), ok_bind, next_flat _ room]
    rfl
  · rw [reach_of_outside (by omega) (by omega), Memory.read, dif_neg fits]
    rfl

end Room

/-- An instruction that has room does to the flat interpreter what it does to the machine. -/
theorem perform_flat {instruction : Instruction}
    (room : interpreter.machine.HasRoom interpreter.keys instruction) (random : UInt8) :
    interpreter.flat.perform random instruction =
      interpreter.flatten (interpreter.machine.perform (interpreter.inputs random)
        instruction) := by
  cases instruction with
  | clear =>
    rw [Flat.perform, next_flat _ room, ← Frame.cells_blank]
    rfl
  | ret =>
    rw [Machine.perform]
    cases popped : interpreter.machine.stack.pop? with
    | none => exact ret_flat_of_empty _ popped random
    | some top =>
      have back := (sum16_eq_ok_iff top.1 2 _).mpr ⟨Nat.add_lt_add_right (room _ _ popped) 2, rfl⟩
      rw [ret_flat _ popped, back]
      rfl
  | call target => exact call_flat _ random target
  | skip condition =>
    rw [Flat.perform, test_flat, Machine.perform]
    show _ = interpreter.flatten ((interpreter.machine.test interpreter.keys condition).map _)
    cases tested : interpreter.machine.test interpreter.keys condition with
    | error fault => rfl
    | ok holds =>
      have bound := room holds tested
      have on : sum16 interpreter.machine.pc (if holds then 4 else 2) =
          .ok (interpreter.machine.skipIf holds).pc := by
        rw [sum16_eq_ok_iff]
        cases holds with
        | false => exact ⟨Nat.add_lt_add_right bound 2, rfl⟩
        | true => exact ⟨Nat.add_lt_add_right bound 4, rfl⟩
      show (sum16 interpreter.machine.pc (if holds = true then 4 else 2) >>= _) = _
      rw [on, ok_bind]
      rfl
  | machineCall target =>
    rw [Flat.perform, next_flat _ room]
    rfl
  | jump target => rfl
  | load x byte => exact setRegister_flat _ room x byte
  | add x byte =>
    rw [Flat.perform, register_flat, ok_bind]
    exact setRegister_flat _ room x _
  | combine combination x y =>
    rw [Flat.perform, register_flat, ok_bind, register_flat, ok_bind]
    exact setRegister_flat _ room x _
  | arithmetic operation x y =>
    rw [Flat.perform, register_flat, ok_bind, register_flat, ok_bind]
    exact setFlagged_flat _ room x _ _
  | shift direction x =>
    rw [Flat.perform, register_flat, ok_bind]
    exact setFlagged_flat _ room x _ _
  | loadIndex address =>
    rw [Flat.perform, next_flat _ room]
    rfl
  | jumpOffset base =>
    have byte := (interpreter.machine.register Machine.offset).toNat_lt
    have room : (interpreter.machine.register Machine.offset).toUInt16.toNat +
        (UInt16.ofNat base).toNat < 65536 := by
      rw [UInt8.toNat_toUInt16, Machine.toNat_ofAddress]
      omega
    rw [Flat.perform, register_flat, ok_bind, sum16, if_pos room]
    rfl
  | random x mask => exact setRegister_flat _ room x _
  | draw x y height => exact draw_flat _ room random x y height
  | readDelay x => exact setRegister_flat _ room x _
  | awaitKey x =>
    have inputs : (interpreter.inputs random).keys = interpreter.keys := rfl
    rw [Flat.perform, Machine.perform, keys_flat, inputs, interpreter.keys.find?_cells]
    cases lowest : interpreter.keys.lowest? with
    | none => rfl
    | some key =>
      show (interpreter.flat.setRegister x (UInt8.ofNat key.val) >>= _) = _
      rw [setRegister_flat _ (room key lowest)]
      rfl
  | setDelay x =>
    rw [Flat.perform, register_flat, ok_bind, next_flat _ room]
    rfl
  | setSound x =>
    rw [Flat.perform, register_flat, ok_bind, next_flat _ room]
    rfl
  | addIndex x =>
    rw [Flat.perform, register_flat, ok_bind, next_flat _ room]
    rfl
  | loadGlyph x =>
    rw [Flat.perform, register_flat, ok_bind]
    dsimp only
    rw [product16, if_pos (toNat_glyph_lt _).1, ok_bind, sum16, if_pos (toNat_glyph_lt _).2,
      ok_bind, next_flat _ room]
    rfl
  | storeDecimal x =>
    rw [Flat.perform, register_flat, ok_bind]
    exact store_flat _ room _ (Nat.le_of_ble_eq_true rfl)
  | storeRegisters last =>
    have few : (interpreter.machine.registers.toList.take (last + 1)).length ≤ 16 := by
      rw [List.length_take, Vector.length_toList]
      omega
    rw [Flat.perform, size_of_lt (by omega), ok_bind, registers_flat, slice, Vector.length_toList,
      if_pos ⟨by omega, by omega⟩, ok_bind, List.drop_zero]
    exact store_flat _ room _ few
  | loadRegisters last => exact loadRegisters_flat _ room random last

/-- An opcode in memory is fetched as it is by the machine. -/
theorem opcode_flat (inside : interpreter.machine.pc.toNat + 2 ≤ 4096) :
    interpreter.flat.opcode =
      .ok (interpreter.machine.memory.opcode interpreter.machine.pc.toNat inside) := by
  rw [opcode, pc_flat, memory_flat, reach_of_inside inside, ok_bind, slice_memory _ inside, ok_bind,
    entry_toList _ _ (by decide), ok_bind, entry_toList _ _ (by decide), Memory.getElem_range,
    Memory.getElem_range]
  rfl

/-- A cycle of the flat interpreter is a cycle of the machine. -/
theorem cycle_flat (returnable : interpreter.machine.Returnable) (random : UInt8) :
    interpreter.flat.cycle random =
      match interpreter.machine.cycle (interpreter.inputs random) with
      | .ok (instruction, machine) => .ok (instruction, { interpreter with machine }.flat)
      | .error fault => .error (.fault fault) := by
  by_cases inside : interpreter.machine.pc.toNat + 2 ≤ 4096
  · rw [Flat.cycle, interpreter.opcode_flat inside, ok_bind, pc_flat, Machine.cycle,
      Machine.instruction_of_inside _ inside]
    cases Instruction.ofOpcode? (interpreter.machine.memory.opcode _ inside) with
    | none => rfl
    | some instruction =>
      show (interpreter.flat.perform random instruction >>= _) =
        match (interpreter.machine.perform (interpreter.inputs random) instruction).map
          fun next => (instruction, next) with
        | .ok (instruction, machine) => .ok (instruction, { interpreter with machine }.flat)
        | .error fault => .error (.fault fault)
      rw [perform_flat _ (returnable.hasRoom (by omega) interpreter.keys instruction)]
      cases interpreter.machine.perform (interpreter.inputs random) instruction with
      | error fault => rfl
      | ok machine => rfl
  · have bound := interpreter.machine.pc.toNat_lt
    rw [Flat.cycle, opcode, pc_flat, reach_of_outside (by omega) (by omega), Machine.cycle,
      Machine.instruction_of_outside _ (by omega)]
    rfl

/-- At power-on the flat interpreter is the interpreter laid out. -/
theorem powerOn_flat (settings : Settings) :
    Flat.powerOn settings = .ok (powerOn settings).flat := by
  have inside : Memory.fontStart.toNat + Memory.font.length ≤ 4096 := by decide
  rw [Flat.powerOn, size_of_lt (by decide), ok_bind, paste_memory ⟨Vector.replicate 4096 0⟩ inside,
    ok_bind]
  simp only [flat, powerOn, Machine.initial, Frame.cells_blank, Keys.cells_released]
  rfl

/-- A program is loaded as it is into memory, or refused as it is there. -/
theorem load_flat (program : List UInt8) :
    interpreter.flat.load program = .ok (interpreter.load program).2.flat := by
  have limit : Memory.programLimit = 3584 := by decide
  have start : Memory.programStart.toNat = 512 := rfl
  rw [Flat.load, Interpreter.load, loaded_flat]
  cases interpreter.loaded with
  | true => rfl
  | false =>
    show (if Memory.programLimit < program.length then _ else _) =
      Except.ok (if Memory.programLimit < program.length then _ else _ :
        Except LoadFault Unit × Interpreter).2.flat
    by_cases large : Memory.programLimit < program.length
    · rw [if_pos large, if_pos large]
    · have inside : Memory.programStart.toNat + program.length ≤ 4096 := by omega
      rw [if_neg large, if_neg large, reach_of_inside inside, ok_bind]
      show (paste interpreter.machine.memory.bytes _ _ _ >>= _) = _
      rw [paste_memory _ inside]
      rfl

/-- A step of the flat interpreter is a step of the interpreter. -/
theorem step_flat (returnable : interpreter.machine.Returnable) (random : UInt8) :
    interpreter.flat.step random = .ok (interpreter.step random).2.flat := by
  rw [Flat.step, cycle_flat _ returnable, Interpreter.step]
  cases interpreter.machine.cycle (interpreter.inputs random) with
  | error fault => rfl
  | ok result => rfl

/-- A timer counts down as it does on the machine. -/
theorem countDown_eq (timer : UInt8) :
    countDown timer = .ok (if timer = 0 then 0 else timer - 1) := by
  unfold countDown
  by_cases zero : timer = 0
  · subst zero
    rfl
  · have positive : 0 < timer := by
      rw [UInt8.lt_iff_toNat_lt]
      exact Nat.pos_of_ne_zero fun none => zero (UInt8.toNat_inj.mp none)
    rw [if_pos positive, if_neg zero, difference8, if_pos]
    exact UInt8.lt_iff_toNat_lt.mp positive

/-- A key is put down or up as it is for the interpreter. -/
theorem setKey_flat (key : UInt8) (isDown : Bool) :
    interpreter.flat.setKey key (if isDown then 1 else 0) =
      (interpreter.setKey key isDown).2.flat := by
  unfold Flat.setKey Interpreter.setKey Key.ofByte
  by_cases inside : key.toNat < 16
  · rw [dif_pos inside, dif_pos inside]
    have cells : interpreter.keys.cells.set key.toNat (if isDown then 1 else 0) =
        (interpreter.keys.set ⟨key.toNat, inside⟩ isDown).cells := by
      rw [Keys.cells, Keys.cells, Keys.set, Vector.map_set]
    rw [keys_flat, cells]
    rfl
  · rw [dif_neg inside, dif_neg inside]

/-- A command does to the flat interpreter what it does to the interpreter. -/
theorem apply_flat (returnable : interpreter.machine.Returnable) (command : Command) :
    interpreter.flat.apply command = .ok (interpreter.apply command).2.flat := by
  cases command with
  | load program => exact interpreter.load_flat program
  | reset => exact powerOn_flat interpreter.settings
  | step random => exact interpreter.step_flat returnable random
  | passOver => rfl
  | tick =>
    rw [Flat.apply, Flat.tick, countDown_eq, ok_bind, countDown_eq]
    rfl
  | press key => exact congrArg Except.ok (interpreter.setKey_flat key true)
  | release key => exact congrArg Except.ok (interpreter.setKey_flat key false)
  | takeFrame =>
    show Except.ok { interpreter.flat with redraw := false } = .ok interpreter.takeFrame.2.flat
    rw [interpreter.takeFrame_cases]
    rfl

end Interpreter

end Chip8
