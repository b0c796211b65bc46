import Chip8.Instruction

/-!
# Instructions as opcodes

The layout of every instruction is written down twice: `Instruction.toOpcode` lays an instruction
out, and `Instruction.ofOpcode?` reads an opcode, refusing those that no instruction is laid out
as. A shift ignores its third digit, which is laid out as zero.
-/

namespace Chip8

/-- The opcode of a family whose operand is an address. -/
def Opcode.ofAddress (family : Fin 16) (address : Address) : Opcode :=
  ⟨family, ⟨address / 256, by omega⟩, ⟨address / 16 % 16, by omega⟩, ⟨address % 16, by omega⟩⟩

/-- The opcode of a family whose operands are a register and a byte. -/
def Opcode.ofByte (family : Fin 16) (x : Register) (byte : UInt8) : Opcode :=
  ⟨family, x, highDigit byte, lowDigit byte⟩

namespace Instruction

/-- The opcode of an instruction. -/
def toOpcode : Instruction → Opcode
  | .clear => ⟨0x0, 0x0, 0xE, 0x0⟩
  | .ret => ⟨0x0, 0x0, 0xE, 0xE⟩
  | .machineCall target => .ofAddress 0x0 target
  | .jump target => .ofAddress 0x1 target
  | .call target => .ofAddress 0x2 target
  | .skip (.holds x byte) => .ofByte 0x3 x byte
  | .skip (.lacks x byte) => .ofByte 0x4 x byte
  | .skip (.equal x y) => ⟨0x5, x, y, 0x0⟩
  | .load x byte => .ofByte 0x6 x byte
  | .add x byte => .ofByte 0x7 x byte
  | .combine .copy x y => ⟨0x8, x, y, 0x0⟩
  | .combine .or x y => ⟨0x8, x, y, 0x1⟩
  | .combine .and x y => ⟨0x8, x, y, 0x2⟩
  | .combine .xor x y => ⟨0x8, x, y, 0x3⟩
  | .arithmetic .add x y => ⟨0x8, x, y, 0x4⟩
  | .arithmetic .subtract x y => ⟨0x8, x, y, 0x5⟩
  | .shift .right x => ⟨0x8, x, 0x0, 0x6⟩
  | .arithmetic .subtractFrom x y => ⟨0x8, x, y, 0x7⟩
  | .shift .left x => ⟨0x8, x, 0x0, 0xE⟩
  | .skip (.different x y) => ⟨0x9, x, y, 0x0⟩
  | .loadIndex address => .ofAddress 0xA address
  | .jumpOffset base => .ofAddress 0xB base
  | .random x mask => .ofByte 0xC x mask
  | .draw x y height => ⟨0xD, x, y, height⟩
  | .skip (.pressed x) => ⟨0xE, x, 0x9, 0xE⟩
  | .skip (.released x) => ⟨0xE, x, 0xA, 0x1⟩
  | .readDelay x => ⟨0xF, x, 0x0, 0x7⟩
  | .awaitKey x => ⟨0xF, x, 0x0, 0xA⟩
  | .setDelay x => ⟨0xF, x, 0x1, 0x5⟩
  | .setSound x => ⟨0xF, x, 0x1, 0x8⟩
  | .addIndex x => ⟨0xF, x, 0x1, 0xE⟩
  | .loadGlyph x => ⟨0xF, x, 0x2, 0x9⟩
  | .storeDecimal x => ⟨0xF, x, 0x3, 0x3⟩
  | .storeRegisters last => ⟨0xF, last, 0x5, 0x5⟩
  | .loadRegisters last => ⟨0xF, last, 0x6, 0x5⟩

/-- The instruction of family zero at an address: two addresses are taken, the others call the
host. -/
def ofSystemAddress (address : Address) : Instruction :=
  if address = 0x0E0 then .clear else if address = 0x0EE then .ret else .machineCall address

/-- The instruction of family eight, which the last digit tells apart. -/
def ofRegisterDigit? (x y n : Fin 16) : Option Instruction :=
  match n with
  | 0x0 => some (.combine .copy x y)
  | 0x1 => some (.combine .or x y)
  | 0x2 => some (.combine .and x y)
  | 0x3 => some (.combine .xor x y)
  | 0x4 => some (.arithmetic .add x y)
  | 0x5 => some (.arithmetic .subtract x y)
  | 0x6 => some (.shift .right x)
  | 0x7 => some (.arithmetic .subtractFrom x y)
  | 0xE => some (.shift .left x)
  | _ => none

/-- The instruction of family fourteen, which the last two digits tell apart. -/
def ofKeyDigits? (x y n : Fin 16) : Option Instruction :=
  match y, n with
  | 0x9, 0xE => some (.skip (.pressed x))
  | 0xA, 0x1 => some (.skip (.released x))
  | _, _ => none

/-- The instruction of family fifteen, which the last two digits tell apart. -/
def ofDeviceDigits? (x y n : Fin 16) : Option Instruction :=
  match y, n with
  | 0x0, 0x7 => some (.readDelay x)
  | 0x0, 0xA => some (.awaitKey x)
  | 0x1, 0x5 => some (.setDelay x)
  | 0x1, 0x8 => some (.setSound x)
  | 0x1, 0xE => some (.addIndex x)
  | 0x2, 0x9 => some (.loadGlyph x)
  | 0x3, 0x3 => some (.storeDecimal x)
  | 0x5, 0x5 => some (.storeRegisters x)
  | 0x6, 0x5 => some (.loadRegisters x)
  | _, _ => none

/-- The instruction that an opcode is, if it is one. -/
def ofOpcode? (opcode : Opcode) : Option Instruction :=
  let ⟨family, x, y, n⟩ := opcode
  match family with
  | 0x0 => some (ofSystemAddress opcode.address)
  | 0x1 => some (.jump opcode.address)
  | 0x2 => some (.call opcode.address)
  | 0x3 => some (.skip (.holds x opcode.byte))
  | 0x4 => some (.skip (.lacks x opcode.byte))
  | 0x5 => if n = 0 then some (.skip (.equal x y)) else none
  | 0x6 => some (.load x opcode.byte)
  | 0x7 => some (.add x opcode.byte)
  | 0x8 => ofRegisterDigit? x y n
  | 0x9 => if n = 0 then some (.skip (.different x y)) else none
  | 0xA => some (.loadIndex opcode.address)
  | 0xB => some (.jumpOffset opcode.address)
  | 0xC => some (.random x opcode.byte)
  | 0xD => some (.draw x y n)
  | 0xE => ofKeyDigits? x y n
  -- The family that is left is fifteen.
  | _ => ofDeviceDigits? x y n

end Instruction

end Chip8
