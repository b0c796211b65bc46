import Chip8.Proofs.Loading

/-!
# Reading what was laid out

Laying an instruction out and reading an opcode undo each other. Two calls of the host are the
exception, since their opcodes are other instructions; and a shift ignores its third digit, so it
has sixteen layouts. Beside that an opcode is read exactly when it is the layout of an instruction,
and as that instruction. A program that is laid out and loaded is therefore read back from memory
instruction by instruction.
-/

namespace Chip8

namespace Opcode

/-- The family of an opcode with an address is the one it was made of. -/
@[simp] theorem family_ofAddress (family : Fin 16) (address : Address) :
    (ofAddress family address).family = family := rfl

/-- The family of an opcode with a byte is the one it was made of. -/
@[simp] theorem family_ofByte (family : Fin 16) (x : Register) (byte : UInt8) :
    (ofByte family x byte).family = family := rfl

/-- The register of an opcode with a byte is the one it was made of. -/
@[simp] theorem x_ofByte (family : Fin 16) (x : Register) (byte : UInt8) :
    (ofByte family x byte).x = x := rfl

/-- The address of an opcode is the one it was made of. -/
@[simp] theorem address_ofAddress (family : Fin 16) (address : Address) :
    (ofAddress family address).address = address := by
  apply Fin.ext
  show 256 * (address.val / 256) + 16 * (address.val / 16 % 16) + address.val % 16 = address.val
  omega

/-- An opcode is made of its family and its address. -/
@[simp] theorem ofAddress_address (opcode : Opcode) :
    ofAddress opcode.family opcode.address = opcode := by
  obtain ⟨family, x, y, n⟩ := opcode
  simp only [ofAddress, address, Opcode.mk.injEq, Fin.ext_iff, true_and]
  omega

/-- The byte of an opcode is the one it was made of. -/
@[simp] theorem byte_ofByte (family : Fin 16) (x : Register) (byte : UInt8) :
    (ofByte family x byte).byte = byte := by
  simp [ofByte, Opcode.byte]

/-- An opcode is made of its family, its second digit and its byte. -/
@[simp] theorem ofByte_byte (opcode : Opcode) :
    ofByte opcode.family opcode.x opcode.byte = opcode := by
  simp [ofByte, Opcode.byte]

/-- The number of an opcode is read off its bytes, the high one first. -/
theorem toNat_toWord_bytes (opcode : Opcode) :
    opcode.toWord.toNat = 256 * opcode.high.toNat + opcode.byte.toNat := by
  rw [toNat_toWord, high, byte, toNat_byteOfDigits, toNat_byteOfDigits]
  omega

/-- Every word is the word of one opcode. -/
theorem existsUnique_toWord (word : UInt16) : ∃! opcode : Opcode, opcode.toWord = word := by
  refine ⟨ofWord word, toWord_ofWord word, ?_⟩
  rintro other rfl
  exact (ofWord_toWord other).symm

end Opcode

namespace Instruction

/-- An instruction can be laid out: it does not call the host at an address whose opcode is another
instruction. -/
def Encodable : Instruction → Prop
  | .machineCall target => target.val ≠ 0x0E0 ∧ target.val ≠ 0x0EE
  | _ => True

/-- An opcode is a layout of an instruction: it is the opcode of the instruction, in which a shift
may have any third digit. -/
def HasLayout : Instruction → Opcode → Prop
  | .shift direction x, opcode => ∃ y, opcode = { (shift direction x).toOpcode with y }
  | instruction, opcode => opcode = instruction.toOpcode

/-- The opcode of an instruction is a layout of it. -/
theorem hasLayout_toOpcode (instruction : Instruction) :
    instruction.HasLayout instruction.toOpcode := by
  cases instruction with
  | shift direction x => exact ⟨(shift direction x).toOpcode.y, rfl⟩
  | _ => rfl

/-- Family zero is read as what it is a layout of. -/
theorem hasLayout_ofSystemAddress {opcode : Opcode} (family : opcode.family = 0x0) :
    (ofSystemAddress opcode.address).Encodable ∧
      (ofSystemAddress opcode.address).HasLayout opcode := by
  have made := opcode.ofAddress_address
  rw [family] at made
  unfold ofSystemAddress
  split
  case isTrue clears =>
    rw [clears] at made
    exact ⟨trivial, made.symm⟩
  case isFalse goesOn =>
    split
    case isTrue returns =>
      rw [returns] at made
      exact ⟨trivial, made.symm⟩
    case isFalse calls =>
      refine ⟨⟨?_, ?_⟩, made.symm⟩
      · intro same
        exact goesOn (Fin.ext same)
      · intro same
        exact calls (Fin.ext same)

variable {instruction : Instruction} {x y n : Fin 16}

/-- Family eight is read as what it is a layout of. -/
theorem hasLayout_of_ofRegisterDigit? (decoded : ofRegisterDigit? x y n = some instruction) :
    instruction.Encodable ∧ instruction.HasLayout ⟨0x8, x, y, n⟩ := by
  unfold ofRegisterDigit? at decoded
  split at decoded <;> cases decoded
  case h_7 => exact ⟨trivial, y, rfl⟩
  case h_9 => exact ⟨trivial, y, rfl⟩
  all_goals exact ⟨trivial, rfl⟩

/-- Family fourteen is read as what it is a layout of. -/
theorem hasLayout_of_ofKeyDigits? (decoded : ofKeyDigits? x y n = some instruction) :
    instruction.Encodable ∧ instruction.HasLayout ⟨0xE, x, y, n⟩ := by
  unfold ofKeyDigits? at decoded
  split at decoded <;> cases decoded
  all_goals exact ⟨trivial, rfl⟩

/-- Family fifteen is read as what it is a layout of. -/
theorem hasLayout_of_ofDeviceDigits? (decoded : ofDeviceDigits? x y n = some instruction) :
    instruction.Encodable ∧ instruction.HasLayout ⟨0xF, x, y, n⟩ := by
  unfold ofDeviceDigits? at decoded
  split at decoded <;> cases decoded
  all_goals exact ⟨trivial, rfl⟩

/-- An opcode that is read is a layout of the instruction. -/
theorem hasLayout_of_ofOpcode? {opcode : Opcode} (decoded : ofOpcode? opcode = some instruction) :
    instruction.Encodable ∧ instruction.HasLayout opcode := by
  have ofAddress := opcode.ofAddress_address
  have ofByte := opcode.ofByte_byte
  obtain ⟨family, x, y, n⟩ := opcode
  unfold ofOpcode? at decoded
  simp only at decoded ofAddress ofByte
  split at decoded
  case h_1 =>
    cases decoded
    exact hasLayout_ofSystemAddress rfl
  case h_6 =>
    split at decoded
    case isTrue last =>
      cases decoded
      exact ⟨trivial, by rw [last]; rfl⟩
    case isFalse => cases decoded
  case h_9 => exact hasLayout_of_ofRegisterDigit? decoded
  case h_10 =>
    split at decoded
    case isTrue last =>
      cases decoded
      exact ⟨trivial, by rw [last]; rfl⟩
    case isFalse => cases decoded
  case h_14 =>
    cases decoded
    exact ⟨trivial, rfl⟩
  case h_15 => exact hasLayout_of_ofKeyDigits? decoded
  case h_16 =>
    have last : family = 0xF := by grind
    rw [last]
    exact hasLayout_of_ofDeviceDigits? decoded
  -- The families that are left have an address, or a register and a byte.
  all_goals
    cases decoded
    first | exact ⟨trivial, ofAddress.symm⟩ | exact ⟨trivial, ofByte.symm⟩

/-- The layout of a call of the host is read as what is at its address. -/
theorem ofOpcode?_machineCall (target : Address) :
    ofOpcode? (machineCall target).toOpcode = some (ofSystemAddress target) := by
  simp [toOpcode, ofOpcode?]

/-- A layout of an instruction is read as the instruction. -/
theorem ofOpcode?_of_hasLayout {opcode : Opcode} (encodable : instruction.Encodable)
    (layout : instruction.HasLayout opcode) : ofOpcode? opcode = some instruction := by
  cases instruction with
  | clear =>
    obtain rfl := layout
    rfl
  | ret =>
    obtain rfl := layout
    rfl
  | machineCall target =>
    obtain rfl := layout
    have goesOn : target ≠ 0x0E0 := fun same => encodable.1 (congrArg Fin.val same)
    have calls : target ≠ 0x0EE := fun same => encodable.2 (congrArg Fin.val same)
    rw [ofOpcode?_machineCall, ofSystemAddress, if_neg goesOn, if_neg calls]
  | shift direction x =>
    obtain ⟨y, rfl⟩ := layout
    cases direction <;> rfl
  | skip condition =>
    obtain rfl := layout
    cases condition <;> simp [toOpcode, ofOpcode?, ofKeyDigits?]
  | combine combination x y =>
    obtain rfl := layout
    cases combination <;> rfl
  | arithmetic operation x y =>
    obtain rfl := layout
    cases operation <;> rfl
  | _ =>
    obtain rfl := layout
    simp [toOpcode, ofOpcode?, ofDeviceDigits?]

/-- A layout of any instruction is read, though a call of the host may be read as another. -/
theorem exists_ofOpcode? {opcode : Opcode} (layout : instruction.HasLayout opcode) :
    ∃ other, ofOpcode? opcode = some other := by
  cases instruction with
  | machineCall target =>
    obtain rfl := layout
    exact ⟨_, ofOpcode?_machineCall target⟩
  | _ =>
    refine ⟨_, ofOpcode?_of_hasLayout ?_ layout⟩
    trivial

/-- An opcode is refused exactly when it is the layout of no instruction. -/
theorem ofOpcode?_eq_none_iff (opcode : Opcode) :
    ofOpcode? opcode = none ↔ ∀ instruction : Instruction, ¬ instruction.HasLayout opcode := by
  constructor
  · intro refused instruction layout
    obtain ⟨other, decoded⟩ := exists_ofOpcode? layout
    rw [refused] at decoded
    cases decoded
  · intro none
    cases decoded : ofOpcode? opcode with
    | none => rfl
    | some instruction => exact absurd (hasLayout_of_ofOpcode? decoded).2 (none instruction)

/-- Two layouts of one instruction are the same opcode, or opcodes of a shift that differ in the
third digit. -/
theorem HasLayout.unique {left right : Opcode} (first : instruction.HasLayout left)
    (second : instruction.HasLayout right) :
    left = right ∨ left.family = 0x8 ∧ (left.n = 0x6 ∨ left.n = 0xE) ∧
      right = { left with y := right.y } := by
  cases instruction with
  | shift direction x =>
    obtain ⟨y, rfl⟩ := first
    obtain ⟨z, rfl⟩ := second
    cases direction with
    | right => exact .inr ⟨rfl, .inl rfl, rfl⟩
    | left => exact .inr ⟨rfl, .inr rfl, rfl⟩
  | _ => exact .inl (first.trans second.symm)

end Instruction

/-- The bytes of a program, each instruction with its high byte first. -/
def assemble (program : List Instruction) : List UInt8 :=
  program.flatMap fun instruction => [instruction.toOpcode.high, instruction.toOpcode.byte]

/-- A program has two bytes for each instruction. -/
@[simp] theorem length_assemble (program : List Instruction) :
    (assemble program).length = 2 * program.length := by
  induction program with
  | nil => rfl
  | cons first rest ih =>
    rw [assemble, List.flatMap_cons, List.length_append, ← assemble, ih, List.length_cons,
      List.length_cons, List.length_cons, List.length_nil]
    omega

/-- An instruction of a program has its two bytes at twice its place. -/
theorem getElem?_assemble (program : List Instruction) (place : Nat) :
    (assemble program)[2 * place]? = program[place]?.map (·.toOpcode.high) ∧
      (assemble program)[2 * place + 1]? = program[place]?.map (·.toOpcode.byte) := by
  induction program generalizing place with
  | nil => exact ⟨rfl, rfl⟩
  | cons first rest ih =>
    have bytes : assemble (first :: rest) =
        first.toOpcode.high :: first.toOpcode.byte :: assemble rest := rfl
    rw [bytes]
    cases place with
    | zero => exact ⟨rfl, rfl⟩
    | succ place => exact ih place

example : assemble [.loadIndex ⟨0x050, by decide⟩, .draw 0x0 0x1 0x5, .shift .left 0xA] =
    [0xA0, 0x50, 0xD0, 0x15, 0x8A, 0x0E] := by decide

/-- The opcode of an instruction lies in memory at its place in the program. -/
theorem opcode_overwrite_assemble (program : List Instruction) (place : Nat)
    (inside : place < program.length) (cells : Vector UInt8 4096)
    (fits : 512 + 2 * place + 2 ≤ 4096) :
    Memory.opcode ⟨overwrite 512 (assemble program) cells⟩ (512 + 2 * place) fits =
      program[place].toOpcode := by
  obtain ⟨high, low⟩ := getElem?_assemble program place
  rw [List.getElem?_eq_getElem inside] at high low
  have first : (overwrite 512 (assemble program) cells)[512 + 2 * place] =
      program[place].toOpcode.high := by
    rw [getElem_overwrite, if_pos (by omega), Nat.add_sub_cancel_left, high]
    rfl
  have second : (overwrite 512 (assemble program) cells)[512 + 2 * place + 1] =
      program[place].toOpcode.byte := by
    have later : 512 + 2 * place + 1 - 512 = 2 * place + 1 := by omega
    rw [getElem_overwrite, if_pos (by omega), later, low]
    rfl
  rw [Memory.opcode, first, second, Opcode.ofBytes_high_byte]

/-- A program that is laid out and loaded at power-on is read back from memory: wherever it is the
turn of one of its places, its instruction there comes next. -/
theorem instruction_load_assemble (settings : Settings) {program : List Instruction}
    (short : program.length ≤ 1792) (encodable : ∀ instruction ∈ program, instruction.Encodable)
    {machine : Machine}
    (memory : machine.memory =
      ((Interpreter.powerOn settings).load (assemble program)).2.machine.memory)
    {place : Nat} (inside : place < program.length)
    (pc : machine.pc.toNat = 0x200 + 2 * place) :
    machine.instruction = .ok program[place] := by
  have small : (assemble program).length ≤ 3584 := by
    rw [length_assemble]
    omega
  have fits : 512 + 2 * place + 2 ≤ 4096 := by omega
  rw [Interpreter.load_powerOn settings _ small] at memory
  rw [Machine.instruction_eq_ok_iff]
  refine ⟨by omega, ?_⟩
  have opcode : machine.memory.opcode machine.pc.toNat (by omega) = program[place].toOpcode := by
    simp only [memory, pc]
    exact opcode_overwrite_assemble program place inside _ fits
  rw [opcode]
  exact Instruction.ofOpcode?_of_hasLayout (encodable _ (List.getElem_mem inside))
    (Instruction.hasLayout_toOpcode _)

/-- Laying out and reading undo each other. Every word is one opcode, of which it has the digits and
the bytes in order. An instruction that can be laid out is read back from its opcode, and from any
other layout it has; what an opcode is read as can be laid out, and the opcode is a layout of it, so
that only opcodes of a shift that differ in the third digit are read as the same instruction; and
the opcodes that are refused are those that are the layout of no instruction. A program of up to
1792 instructions that is laid out is taken in at power-on, and read back. -/
theorem layout_inverse :
    (∀ word : UInt16, ∃! opcode : Opcode, opcode.toWord = word) ∧
    (∀ opcode : Opcode,
      opcode.toWord.toNat =
        4096 * opcode.family + 256 * opcode.x + 16 * opcode.y + opcode.n ∧
      opcode.toWord.toNat = 256 * opcode.high.toNat + opcode.byte.toNat) ∧
    (∀ instruction : Instruction, instruction.Encodable →
      Instruction.ofOpcode? instruction.toOpcode = some instruction ∧
      ∀ opcode, instruction.HasLayout opcode → Instruction.ofOpcode? opcode = some instruction) ∧
    (∀ opcode instruction, Instruction.ofOpcode? opcode = some instruction →
      instruction.Encodable ∧ instruction.HasLayout opcode) ∧
    (∀ left right instruction, Instruction.ofOpcode? left = some instruction →
      Instruction.ofOpcode? right = some instruction →
      left = right ∨ left.family = 0x8 ∧ (left.n = 0x6 ∨ left.n = 0xE) ∧
        right = { left with y := right.y }) ∧
    (∀ opcode, Instruction.ofOpcode? opcode = none ↔
      ∀ instruction : Instruction, ¬ instruction.HasLayout opcode) ∧
    (∀ (settings : Settings) (program : List Instruction), program.length ≤ 1792 →
      (∀ instruction ∈ program, instruction.Encodable) →
      ((Interpreter.powerOn settings).load (assemble program)).1 = .ok () ∧
      ∀ (machine : Machine) (place : Nat) (inside : place < program.length),
        machine.memory =
          ((Interpreter.powerOn settings).load (assemble program)).2.machine.memory →
        machine.pc.toNat = 0x200 + 2 * place → machine.instruction = .ok program[place]) := by
  refine ⟨Opcode.existsUnique_toWord, ?_, ?_, ?_, ?_, Instruction.ofOpcode?_eq_none_iff, ?_⟩
  · intro opcode
    exact ⟨opcode.toNat_toWord, opcode.toNat_toWord_bytes⟩
  · intro instruction encodable
    refine ⟨Instruction.ofOpcode?_of_hasLayout encodable instruction.hasLayout_toOpcode, ?_⟩
    intro opcode layout
    exact Instruction.ofOpcode?_of_hasLayout encodable layout
  · intro opcode instruction decoded
    exact Instruction.hasLayout_of_ofOpcode? decoded
  · intro left right instruction first second
    exact (Instruction.hasLayout_of_ofOpcode? first).2.unique
      (Instruction.hasLayout_of_ofOpcode? second).2
  · intro settings program short encodable
    constructor
    · have small : (assemble program).length ≤ 3584 := by
        rw [length_assemble]
        omega
      have empty : (Interpreter.powerOn settings).loaded = false := rfl
      rw [Interpreter.load_of_small empty small]
    · intro machine place inside memory pc
      exact instruction_load_assemble settings short encodable memory inside pc

end Chip8
