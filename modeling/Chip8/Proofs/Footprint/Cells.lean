import Chip8.Proofs.Redraw
import Chip8.Proofs.ReturnAddresses

/-!
# What a step changes, cell by cell

The parts of the machine are made of cells: single registers, single bytes of memory, single slots
of the stack. `Instruction.Touches` is the table of the cells that an instruction may change, and
`Instruction.LeadsTo` says where the program counter goes, as a number. A step that succeeds leaves
every cell outside the table as it was, and everything that is no part of the machine. Skips come in
pairs that test the opposite, and exactly one of a pair passes over the next instruction.
-/

namespace Chip8

attribute [ext] CallStack Machine

/-- The smallest parts of the machine that an instruction may change by themselves, beside the
program counter. -/
inductive Cell
  | register (x : Register)
  | index
  | slot (place : Fin 16)
  | depth
  | delay
  | sound
  | byte (address : Address)
  | frame
  | redraw
  | awaiting
  deriving DecidableEq

namespace Cell

/-- Two machines have a cell in common. -/
def Same (left right : Machine) : Cell → Prop
  | .register x => left.register x = right.register x
  | .index => left.index = right.index
  | .slot place => left.stack.slots.get place = right.stack.slots.get place
  | .depth => left.stack.depth = right.stack.depth
  | .delay => left.delay = right.delay
  | .sound => left.sound = right.sound
  | .byte address => left.memory.bytes.get address = right.memory.bytes.get address
  | .frame => left.frame = right.frame
  | .redraw => left.redraw = right.redraw
  | .awaiting => left.awaiting = right.awaiting

/-- The part that a cell belongs to. -/
def part : Cell → Part
  | .register _ => .registers
  | .index => .index
  | .slot _ => .stack
  | .depth => .stack
  | .delay => .delay
  | .sound => .sound
  | .byte _ => .memory
  | .frame => .frame
  | .redraw => .redraw
  | .awaiting => .awaiting

/-- Machines that have a part in common have its cells in common. -/
theorem same_of_part {left right : Machine} (cell : Cell) (same : cell.part.Same left right) :
    cell.Same left right := by
  cases cell with
  | register x => exact congrArg (fun registers : Vector UInt8 16 => registers[x]) same
  | slot place => exact congrArg (fun stack : CallStack => stack.slots.get place) same
  | depth => exact congrArg CallStack.depth same
  | byte address => exact congrArg (fun memory : Memory => memory.bytes.get address) same
  | _ => exact same

/-- The cells and the program counter are all there is to a machine. -/
theorem eq_of_same {left right : Machine} (pc : left.pc = right.pc)
    (same : ∀ cell : Cell, cell.Same left right) : left = right := by
  have registers : left.registers = right.registers :=
    Vector.ext fun x inside => same (.register ⟨x, inside⟩)
  have slots : left.stack.slots = right.stack.slots :=
    Vector.ext fun place inside => same (.slot ⟨place, inside⟩)
  have stack : left.stack = right.stack := CallStack.ext slots (same .depth)
  have bytes : left.memory.bytes = right.memory.bytes :=
    Vector.ext fun address inside => same (.byte ⟨address, inside⟩)
  have memory : left.memory = right.memory := congrArg Memory.mk bytes
  exact Machine.ext registers (same .index) pc stack (same .delay) (same .sound) memory
    (same .frame) (same .redraw) (same .awaiting)

end Cell

/-- The cells that an instruction may change. -/
def Instruction.Touches (machine : Machine) (keys : Keys) : Instruction → Cell → Prop
  | .clear, .frame => True
  | .clear, .redraw => True
  | .draw _ _ _, .frame => True
  | .draw _ _ _, .redraw => True
  | .draw _ _ _, .register other => other = Machine.flag
  | .ret, .depth => True
  | .call _, .depth => True
  | .call _, .slot place => place = machine.stack.depth
  | .load x _, .register other => other = x
  | .add x _, .register other => other = x
  | .combine _ x _, .register other => other = x
  | .arithmetic _ x _, .register other => other = x ∨ other = Machine.flag
  | .shift _ x, .register other => other = x ∨ other = Machine.flag
  | .random x _, .register other => other = x
  | .readDelay x, .register other => other = x
  | .awaitKey x, .register other => other = x ∧ ∃ key, keys.isDown key = true
  | .awaitKey _, .awaiting => True
  | .setDelay _, .delay => True
  | .setSound _, .sound => True
  | .loadIndex _, .index => True
  | .addIndex _, .index => True
  | .loadGlyph _, .index => True
  | .storeDecimal _, .byte address =>
    machine.index.toNat ≤ address ∧ address < machine.index.toNat + 3
  | .storeRegisters last, .byte address =>
    machine.index.toNat ≤ address ∧ address < machine.index.toNat + last + 1
  | .loadRegisters last, .register other => other ≤ last
  | .loadRegisters _, .index => True
  | _, _ => False

/-- A write leaves every byte as it was that lies outside its range. -/
theorem Memory.byte_of_write {memory written : Memory} {start count : Nat} {bytes : List UInt8}
    (write : memory.write start bytes = .ok written) (size : bytes.length = count)
    {address : Address} (outside : ¬ (start ≤ address ∧ address < start + count)) :
    memory.bytes.get address = written.bytes.get address := by
  subst size
  have inside : start + bytes.length ≤ 4096 := by
    by_contra beyond
    rw [Memory.write, if_neg beyond] at write
    cases write
  rw [write_of_inside memory inside] at write
  obtain rfl := Except.ok.inj write
  show memory.bytes[address.val] = (overwrite start bytes memory.bytes)[address.val]
  rw [getElem_overwrite]
  split
  case isTrue above =>
    have past : bytes.length ≤ address - start := by omega
    rw [List.getElem?_eq_none past]
    rfl
  case isFalse below => rfl

namespace CallStack

variable {stack next : CallStack} {address : UInt16}

/-- Every slot keeps its address when the top is taken away. -/
theorem slots_of_pop? (popped : stack.pop? = some (address, next)) : stack.slots = next.slots := by
  unfold pop? at popped
  split at popped
  case isTrue used =>
    cases popped
    rfl
  case isFalse => cases popped

/-- Every slot but the first one that is not in use keeps its address when one comes on top. -/
theorem slot_of_push? (pushed : stack.push? address = some next) {place : Fin 16}
    (apart : place.val ≠ stack.depth) : stack.slots.get place = next.slots.get place := by
  unfold push? at pushed
  split at pushed
  case isTrue room =>
    cases pushed
    show stack.slots[place.val] = (stack.slots.set stack.depth address)[place.val]
    rw [Vector.getElem_set_ne _ _ apart.symm]
  case isFalse => cases pushed

end CallStack

/-- A byte below sixteen names a key, and no other does. -/
theorem Key.exists_ofByte_iff (byte : UInt8) :
    (∃ key, Key.ofByte byte = .ok key) ↔ byte.toNat < 16 := by
  simp only [ofByte_eq_ok_iff]
  constructor
  · rintro ⟨key, same⟩
    rw [same]
    exact key.isLt
  · intro low
    exact ⟨⟨byte.toNat, low⟩, rfl⟩

/-- A result that is made from another comes about exactly if the other does. -/
theorem exists_map_eq_ok_iff {α β : Type} {result : Except Fault α} {make : α → β} :
    (∃ made, result.map make = .ok made) ↔ ∃ found, result = .ok found := by
  simp only [map_eq_ok_iff]
  constructor
  · rintro ⟨made, found, same, -⟩
    exact ⟨found, same⟩
  · rintro ⟨found, same⟩
    exact ⟨make found, found, same, rfl⟩

/-- What a condition says of the machine and the keys; a byte that names no key is neither pressed
nor released. -/
def Condition.Holds (machine : Machine) (keys : Keys) : Condition → Prop
  | .holds x byte => machine.register x = byte
  | .lacks x byte => machine.register x ≠ byte
  | .equal x y => machine.register x = machine.register y
  | .different x y => machine.register x ≠ machine.register y
  | .pressed x => ∃ key : Key, (machine.register x).toNat = key ∧ keys.isDown key = true
  | .released x => ∃ key : Key, (machine.register x).toNat = key ∧ keys.isDown key = false

/-- A condition on a key names one. -/
def Condition.Testable (machine : Machine) : Condition → Prop
  | .pressed x => (machine.register x).toNat < 16
  | .released x => (machine.register x).toNat < 16
  | _ => True

/-- The condition on the same operands that says the contrary. -/
def Condition.opposite : Condition → Condition
  | .holds x byte => .lacks x byte
  | .lacks x byte => .holds x byte
  | .equal x y => .different x y
  | .different x y => .equal x y
  | .pressed x => .released x
  | .released x => .pressed x

/-- The number of the address that an instruction leads to. -/
def Instruction.LeadsTo (machine : Machine) (keys : Keys) (address : Nat) : Instruction → Prop
  | .jump target => address = target
  | .call target => address = target
  | .jumpOffset base => address = (machine.register Machine.offset).toNat + base
  | .ret => ∃ caller, machine.stack.toList.getLast? = some caller ∧ address = caller.toNat + 2
  | .awaitKey _ =>
    ((∃ key, keys.isDown key = true) → address = machine.pc.toNat + 2) ∧
      ((∀ key, keys.isDown key = false) → address = machine.pc.toNat)
  | .skip condition =>
    (condition.Holds machine keys → address = machine.pc.toNat + 4) ∧
      (¬ condition.Holds machine keys → address = machine.pc.toNat + 2)
  | _ => address = machine.pc.toNat + 2

/-- What an instruction leaves of a machine beside its result. -/
structure Machine.Footprint (machine : Machine) (keys : Keys) (instruction : Instruction)
    (next : Machine) : Prop where
  /-- A cell that the instruction does not touch is as it was. -/
  kept : ∀ cell, ¬ instruction.Touches machine keys cell → cell.Same machine next
  /-- A frame that is written is yet to be taken. -/
  noted : instruction.draws = true → next.redraw = true
  /-- The program counter is where the instruction leads. -/
  leads : instruction.LeadsTo machine keys next.pc.toNat

namespace Machine

variable {machine next : Machine} {inputs : Inputs} {instruction : Instruction}

/-- A register keeps its byte while another one is set. -/
theorem register_setRegister_of_ne (machine : Machine) {x other : Register} (byte : UInt8)
    (apart : other ≠ x) :
    (machine.setRegister x byte).register other = machine.register other := by
  rw [register_setRegister, if_neg apart]

/-- A register keeps its byte while another one is set together with the flag, unless it is the
flag. -/
theorem register_setFlagged_of_ne (machine : Machine) {x other : Register} (byte : UInt8)
    (raised : Bool) (apart : ¬ (other = x ∨ other = flag)) :
    (machine.setFlagged x byte raised).register other = machine.register other := by
  rw [register_setFlagged _ _ _ _ _ (fun same => apart (.inr same)),
    if_neg fun same => apart (.inl same)]

/-- A register keeps its byte while those below it are replaced. -/
theorem getElem_withFirst_of_le (registers : Vector UInt8 16) {count : Nat}
    (bytes : Vector UInt8 count) {other : Register} (above : count ≤ other.val) :
    (withFirst registers bytes)[other] = registers[other] := by
  have none : bytes[other.val]? = none := Vector.getElem?_eq_none above
  rw [withFirst, Fin.getElem_fin, Vector.getElem_ofFn]
  simp only [none, Option.getD_none]
  rfl

/-- An instruction leaves every register as it was that it does not touch. -/
theorem register_of_perform (performed : machine.perform inputs instruction = .ok next)
    {other : Register} (untouched : ¬ instruction.Touches machine inputs.keys (.register other)) :
    machine.register other = next.register other := by
  by_cases writes : Part.registers ∈ instruction.writes
  · cases instruction with
    | load x byte | add x byte | combine combination x y | random x mask | readDelay x =>
      obtain rfl := Except.ok.inj performed
      exact (register_setRegister_of_ne _ _ untouched).symm
    | arithmetic operation x y | shift direction x =>
      obtain rfl := Except.ok.inj performed
      exact (register_setFlagged_of_ne _ _ _ untouched).symm
    | draw x y height =>
      obtain ⟨sprite, -, rfl⟩ := map_eq_ok_iff.mp performed
      exact (register_setRegister_of_ne _ _ untouched).symm
    | awaitKey x =>
      obtain ⟨key, lowest, rfl⟩ | ⟨-, rfl⟩ := of_perform_awaitKey performed
      · have down : ∃ key, inputs.keys.isDown key = true := ⟨key, List.find?_some lowest⟩
        have apart : other ≠ x := fun same => untouched ⟨same, down⟩
        exact (register_setRegister_of_ne _ _ apart).symm
      · rfl
    | loadRegisters last =>
      obtain ⟨bytes, -, rfl⟩ := map_eq_ok_iff.mp performed
      exact (getElem_withFirst_of_le _ _ (Nat.lt_of_not_le untouched)).symm
    | _ => simp [Instruction.writes] at writes
  · exact Cell.same_of_part (.register other) (perform_untouched performed .registers writes)

/-- An instruction leaves every byte of memory as it was that it does not touch. -/
theorem byte_of_perform (performed : machine.perform inputs instruction = .ok next)
    {address : Address} (untouched : ¬ instruction.Touches machine inputs.keys (.byte address)) :
    machine.memory.bytes.get address = next.memory.bytes.get address := by
  by_cases writes : Part.memory ∈ instruction.writes
  · cases instruction with
    | storeDecimal x =>
      obtain ⟨memory, written, rfl⟩ := map_eq_ok_iff.mp performed
      exact Memory.byte_of_write written rfl untouched
    | storeRegisters last =>
      obtain ⟨memory, written, rfl⟩ := map_eq_ok_iff.mp performed
      have count : (machine.registers.toList.take (last + 1)).length = last + 1 := by
        rw [List.length_take, Vector.length_toList]
        omega
      exact Memory.byte_of_write written count untouched
    | _ => simp [Instruction.writes] at writes
  · exact Cell.same_of_part (.byte address) (perform_untouched performed .memory writes)

/-- An instruction leaves every slot of the stack as it was that it does not touch. -/
theorem slot_of_perform (performed : machine.perform inputs instruction = .ok next)
    {place : Fin 16} (untouched : ¬ instruction.Touches machine inputs.keys (.slot place)) :
    machine.stack.slots.get place = next.stack.slots.get place := by
  by_cases writes : Part.stack ∈ instruction.writes
  · cases instruction with
    | ret =>
      obtain ⟨caller, rest, popped, rfl⟩ := of_perform_ret performed
      rw [CallStack.slots_of_pop? popped]
    | call target =>
      obtain ⟨stack, pushed, rfl⟩ := of_perform_call performed
      exact CallStack.slot_of_push? pushed untouched
    | _ => simp [Instruction.writes] at writes
  · exact Cell.same_of_part (.slot place) (perform_untouched performed .stack writes)

/-- An instruction leaves every cell as it was that it does not touch. -/
theorem same_of_perform (performed : machine.perform inputs instruction = .ok next) (cell : Cell)
    (untouched : ¬ instruction.Touches machine inputs.keys cell) : cell.Same machine next := by
  cases cell with
  | register x => exact register_of_perform performed untouched
  | slot place => exact slot_of_perform performed untouched
  | byte address => exact byte_of_perform performed untouched
  | _ =>
    -- The cells that are left are whole parts, or the depth, which changes whenever the stack may.
    refine Cell.same_of_part _ (perform_untouched performed _ ?_)
    cases instruction <;>
      first | exact absurd trivial untouched | simp [Instruction.writes, Cell.part]

/-- A test that comes to a result says whether the condition holds. -/
theorem holds_of_test {keys : Keys} {condition : Condition} {result : Bool}
    (tested : machine.test keys condition = .ok result) :
    result = true ↔ condition.Holds machine keys := by
  cases condition with
  | pressed x =>
    obtain ⟨key, named, rfl⟩ := map_eq_ok_iff.mp tested
    rw [Key.ofByte_eq_ok_iff] at named
    constructor
    · exact fun down => ⟨key, named, down⟩
    · rintro ⟨other, same, down⟩
      exact Fin.ext (named ▸ same) ▸ down
  | released x =>
    obtain ⟨key, named, rfl⟩ := map_eq_ok_iff.mp tested
    rw [Key.ofByte_eq_ok_iff] at named
    rw [Bool.not_eq_true']
    constructor
    · exact fun up => ⟨key, named, up⟩
    · rintro ⟨other, same, up⟩
      exact Fin.ext (named ▸ same) ▸ up
  | _ =>
    obtain rfl := Except.ok.inj tested
    simp only [Condition.Holds, decide_eq_true_eq]

/-- The opposite condition is tested with the opposite result. -/
theorem test_opposite (machine : Machine) (keys : Keys) (condition : Condition) :
    machine.test keys condition.opposite = (machine.test keys condition).map not := by
  cases condition with
  | pressed x =>
    rw [Condition.opposite, test, test]
    cases Key.ofByte (machine.register x) <;> rfl
  | released x =>
    rw [Condition.opposite, test, test]
    cases Key.ofByte (machine.register x) with
    | error fault => rfl
    | ok key => exact congrArg Except.ok (Bool.not_not _).symm
  | _ => simp [Condition.opposite, test, Except.map]

/-- A condition comes to a result exactly if it can be tested. -/
theorem testable_iff (machine : Machine) (keys : Keys) (condition : Condition) :
    condition.Testable machine ↔ ∃ result, machine.test keys condition = .ok result := by
  cases condition with
  | pressed x =>
    rw [test, exists_map_eq_ok_iff, Key.exists_ofByte_iff]
    rfl
  | released x =>
    rw [test, exists_map_eq_ok_iff, Key.exists_ofByte_iff]
    rfl
  | _ => exact ⟨fun _ => ⟨_, rfl⟩, fun _ => trivial⟩

/-- A skip and the skip on the opposite condition are both performed exactly if the condition can be
tested, and then one of them passes over the next instruction and the other does not. -/
theorem testable_iff_skips (machine : Machine) (inputs : Inputs) (condition : Condition) :
    condition.Testable machine ↔
      ∃ next other, machine.perform inputs (.skip condition) = .ok next ∧
        machine.perform inputs (.skip condition.opposite) = .ok other ∧
        (next.pc = machine.pc + 4 ∧ other.pc = machine.pc + 2 ∨
          next.pc = machine.pc + 2 ∧ other.pc = machine.pc + 4) := by
  rw [testable_iff machine inputs.keys]
  constructor
  · rintro ⟨holds, tested⟩
    have contrary : machine.test inputs.keys condition.opposite = .ok (!holds) := by
      rw [test_opposite, tested]
      rfl
    refine ⟨machine.skipIf holds, machine.skipIf (!holds), ?_, ?_, ?_⟩
    · exact map_eq_ok_iff.mpr ⟨holds, tested, rfl⟩
    · exact map_eq_ok_iff.mpr ⟨!holds, contrary, rfl⟩
    · cases holds with
      | true => exact .inl ⟨rfl, rfl⟩
      | false => exact .inr ⟨rfl, rfl⟩
  · rintro ⟨next, -, performed, -⟩
    obtain ⟨holds, tested, -⟩ := map_eq_ok_iff.mp performed
    exact ⟨holds, tested⟩

/-- An instruction that has room leads where it should. -/
theorem leadsTo_of_perform (room : machine.HasRoom inputs.keys instruction)
    (performed : machine.perform inputs instruction = .ok next) :
    instruction.LeadsTo machine inputs.keys next.pc.toNat := by
  have landed := pc_of_perform performed
  cases instruction with
  | ret =>
    obtain ⟨caller, rest, popped, rfl⟩ := of_perform_ret performed
    refine ⟨caller, ?_, toNat_add_two (room caller rest popped)⟩
    rw [CallStack.toList_of_pop? popped, List.getLast?_concat]
  | jump target =>
    rw [landed]
    exact toNat_ofAddress target
  | call target =>
    rw [landed]
    exact toNat_ofAddress target
  | jumpOffset base =>
    rw [landed]
    exact toNat_jumpOffset _ base
  | skip condition =>
    obtain ⟨holds, tested, rfl⟩ := map_eq_ok_iff.mp performed
    have met := holds_of_test tested
    have bound := room holds tested
    constructor
    · intro held
      rw [skipIf, if_pos (met.mpr held)]
      rw [if_pos (met.mpr held)] at bound
      exact toNat_add_four bound
    · intro failed
      rw [skipIf, if_neg (mt met.mp failed)]
      rw [if_neg (mt met.mp failed)] at bound
      exact toNat_add_two bound
  | awaitKey x =>
    obtain ⟨key, lowest, rfl⟩ | ⟨lowest, rfl⟩ := of_perform_awaitKey performed
    · have down : inputs.keys.isDown key = true := List.find?_some lowest
      constructor
      · intro _
        exact toNat_add_two (room key lowest)
      · intro up
        exact absurd down (up key ▸ Bool.false_ne_true)
    · have up : ∀ key, inputs.keys.isDown key ≠ true := fun key =>
        List.find?_eq_none.mp lowest key (List.mem_finRange key)
      constructor
      · rintro ⟨key, down⟩
        exact absurd down (up key)
      · intro _
        rfl
  | _ =>
    rw [landed]
    exact toNat_add_two room

/-- An instruction that is performed and has room leaves its footprint. -/
theorem footprint_of_perform (room : machine.HasRoom inputs.keys instruction)
    (performed : machine.perform inputs instruction = .ok next) :
    machine.Footprint inputs.keys instruction next where
  kept := same_of_perform performed
  noted drawn := by rw [redraw_of_perform performed, drawn, Bool.or_true]
  leads := leadsTo_of_perform room performed

end Machine

namespace Interpreter

/-- A step that succeeds leaves the footprint of the instruction at the program counter, and
nothing beside the machine is changed. The footprint is all there is to tell, since the cells and
the program counter are the whole machine. A skip and the skip on the opposite condition are both
performed unless the condition is on a key and names none, and then exactly one of them passes over
the next instruction. -/
theorem Reachable.step_footprint {interpreter : Interpreter} (reachable : interpreter.Reachable) :
    (∀ random outcome after, interpreter.step random = (.ok outcome, after) →
      ∃ instruction, interpreter.machine.instruction = .ok instruction ∧
        after = { interpreter with machine := after.machine } ∧
        interpreter.machine.Footprint interpreter.keys instruction after.machine) ∧
    (∀ next : Machine, interpreter.machine.pc = next.pc →
      (∀ cell : Cell, cell.Same interpreter.machine next) → interpreter.machine = next) ∧
    ∀ inputs condition, condition.Testable interpreter.machine ↔
      ∃ next other, interpreter.machine.perform inputs (.skip condition) = .ok next ∧
        interpreter.machine.perform inputs (.skip condition.opposite) = .ok other ∧
        (next.pc = interpreter.machine.pc + 4 ∧ other.pc = interpreter.machine.pc + 2 ∨
          next.pc = interpreter.machine.pc + 2 ∧ other.pc = interpreter.machine.pc + 4) := by
  refine ⟨?_, ?_, ?_⟩
  · intro random outcome after stepped
    obtain ⟨fault, -, same⟩ | ⟨instruction, next, found, performed, same⟩ :=
      interpreter.step_cases random
    · rw [stepped] at same
      cases same
    · rw [stepped] at same
      cases same
      refine ⟨instruction, found, rfl, ?_⟩
      have inside := Machine.pc_le_of_instruction found
      have room := reachable.returnable.hasRoom inside interpreter.keys instruction
      exact Machine.footprint_of_perform room performed
  · intro next
    exact Cell.eq_of_same
  · intro inputs condition
    exact interpreter.machine.testable_iff_skips inputs condition

/-- A program that stores two registers leaves memory from the third byte on as it was, and goes on
to its next instruction. -/
theorem step_footprint_store :
    Reachable ((powerOn .standard).load [0xF1, 0x55]).2 ∧
      (((powerOn .standard).load [0xF1, 0x55]).2.step 0).1 =
        .ok (.executed (.storeRegisters 1)) ∧
      (∀ address : Address, 2 ≤ address.val →
        ((powerOn .standard).load [0xF1, 0x55]).2.machine.memory.bytes.get address =
          (((powerOn .standard).load [0xF1, 0x55]).2.step 0).2.machine.memory.bytes.get address) ∧
      (((powerOn .standard).load [0xF1, 0x55]).2.step 0).2.machine.pc.toNat = 0x202 := by
  have reachable := Reachable.standard.afterLoad [0xF1, 0x55]
  have found : ((powerOn .standard).load [0xF1, 0x55]).2.machine.instruction =
      .ok (.storeRegisters 1) := instruction_load_powerOn _ (by decide) rfl
  have executed : (((powerOn .standard).load [0xF1, 0x55]).2.step 0).1 =
      .ok (.executed (.storeRegisters 1)) := by
    rw [step, Machine.cycle, found]
    rfl
  obtain ⟨steps, -⟩ := Reachable.step_footprint reachable
  generalize stepped : ((powerOn .standard).load [0xF1, 0x55]).2.step 0 = result at executed ⊢
  obtain ⟨reply, after⟩ := result
  obtain rfl : reply = .ok (.executed (.storeRegisters 1)) := executed
  obtain ⟨instruction, same, -, footprint⟩ := steps 0 _ _ stepped
  obtain rfl := Except.ok.inj (found.symm.trans same)
  have start : ((powerOn .standard).load [0xF1, 0x55]).2.machine.pc.toNat = 0x200 := by
    rw [load_powerOn _ [0xF1, 0x55] (by decide)]
    rfl
  have index : ((powerOn .standard).load [0xF1, 0x55]).2.machine.index.toNat = 0 := by
    rw [load_powerOn _ [0xF1, 0x55] (by decide)]
    rfl
  refine ⟨reachable, rfl, ?_, ?_⟩
  · intro address above
    refine footprint.kept (.byte address) ?_
    rintro ⟨-, below⟩
    rw [index] at below
    exact Nat.not_lt_of_le above below
  · have leads : _ = _ + 2 := footprint.leads
    rw [leads, start]

end Interpreter

end Chip8
