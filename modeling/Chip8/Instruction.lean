import Chip8.Opcode

/-!
# Instructions

What an opcode asks of the machine, with its operands taken apart. Instructions that differ only in
the test they skip on, or in the function they compute, are one constructor with that test or
function as an operand. Operands are as wide as their place in an opcode, so every instruction that
can be written down can be encoded.
-/

namespace Chip8

/-- What a conditional skip tests; the instruction after the skip is passed over if it holds. -/
inductive Condition
  /-- A register holds the given byte. -/
  | holds (x : Register) (byte : UInt8)
  /-- A register holds another byte. -/
  | lacks (x : Register) (byte : UInt8)
  /-- Two registers hold the same byte. -/
  | equal (x y : Register)
  /-- Two registers hold different bytes. -/
  | different (x y : Register)
  /-- The key that a register names is down. -/
  | pressed (x : Register)
  /-- The key that a register names is up. -/
  | released (x : Register)
  deriving DecidableEq, Repr

/-- A function of two registers that leaves the flag alone. -/
inductive Combination
  /-- The second register. -/
  | copy
  /-- The bits set in either register. -/
  | or
  /-- The bits set in both registers. -/
  | and
  /-- The bits set in exactly one of the registers. -/
  | xor
  deriving DecidableEq, Repr

/-- A function of two registers that also sets the flag. -/
inductive Arithmetic
  /-- The sum, with the carry as flag. -/
  | add
  /-- The first register less the second, flagged when nothing is borrowed. -/
  | subtract
  /-- The second register less the first, flagged when nothing is borrowed. -/
  | subtractFrom
  deriving DecidableEq, Repr

/-- The way in which a register is shifted by one place; the bit shifted out is the flag. -/
inductive Shift
  /-- Towards the low end, which halves. -/
  | right
  /-- Towards the high end, which doubles. -/
  | left
  deriving DecidableEq, Repr

/-- One instruction of the machine. -/
inductive Instruction
  /-- Unlight every pixel. -/
  | clear
  /-- Go back to just after the latest call. -/
  | ret
  /-- Call code of the host, which there is none of: nothing happens. -/
  | machineCall (target : Address)
  /-- Go to an address. -/
  | jump (target : Address)
  /-- Go to an address and remember where from. -/
  | call (target : Address)
  /-- Pass over the next instruction if a condition holds. -/
  | skip (condition : Condition)
  /-- Set a register to a byte. -/
  | load (x : Register) (byte : UInt8)
  /-- Add a byte to a register, without a flag. -/
  | add (x : Register) (byte : UInt8)
  /-- Set the first register to a function of both. -/
  | combine (combination : Combination) (x y : Register)
  /-- Set the first register and the flag to a function of both. -/
  | arithmetic (operation : Arithmetic) (x y : Register)
  /-- Shift a register by one place. -/
  | shift (direction : Shift) (x : Register)
  /-- Set the index to an address. -/
  | loadIndex (address : Address)
  /-- Go to an address plus register zero. -/
  | jumpOffset (base : Address)
  /-- Set a register to the bits of a random byte that a mask lets through. -/
  | random (x : Register) (mask : UInt8)
  /-- Draw the sprite of `height` rows at the index, its corner at the position in two registers. -/
  | draw (x y : Register) (height : Fin 16)
  /-- Set a register to the delay timer. -/
  | readDelay (x : Register)
  /-- Wait until a key is down and set a register to it. -/
  | awaitKey (x : Register)
  /-- Set the delay timer to a register. -/
  | setDelay (x : Register)
  /-- Set the sound timer to a register. -/
  | setSound (x : Register)
  /-- Add a register to the index. -/
  | addIndex (x : Register)
  /-- Set the index to the glyph of the low digit of a register. -/
  | loadGlyph (x : Register)
  /-- Store the three decimal digits of a register at the index. -/
  | storeDecimal (x : Register)
  /-- Store the registers up to the given one at the index. -/
  | storeRegisters (last : Register)
  /-- Load the registers up to the given one from the index, which moves past them. -/
  | loadRegisters (last : Register)
  deriving DecidableEq, Repr

end Chip8
