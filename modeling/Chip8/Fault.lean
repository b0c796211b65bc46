import Chip8.Opcode

/-!
# Faults

Why a step cannot be taken, or a key event not accepted. A fault carries what its message names and
nothing else; the wording is in `Fault.message` alone.
-/

namespace Chip8

/-- A cause for which the machine stops where it is. -/
inductive Fault
  /-- An access reaches past memory, and this is its first address that memory lacks. -/
  | outOfBounds (address : Nat)
  /-- The opcode at an address is no instruction. -/
  | unknownOpcode (opcode : Opcode) (address : UInt16)
  /-- The call at an address finds the stack full. -/
  | stackOverflow (address : UInt16)
  /-- The return at an address finds the stack empty. -/
  | stackUnderflow (address : UInt16)
  /-- A byte names none of the sixteen keys. -/
  | invalidKey (key : UInt8)
  deriving DecidableEq, Repr

/-- The wording of a fault: opcodes and memory addresses have at least four digits, addresses of
code three and keys two. -/
def Fault.message : Fault → String
  | .outOfBounds address => s!"memory access out of bounds at address 0x{Text.hex 4 address}"
  | .unknownOpcode opcode address =>
    s!"unknown opcode 0x{opcode.text} at 0x{Text.hex 3 address.toNat}"
  | .stackOverflow address =>
    s!"stack overflow: call at 0x{Text.hex 3 address.toNat} exceeds 16 nested subroutines"
  | .stackUnderflow address =>
    s!"stack underflow: return at 0x{Text.hex 3 address.toNat} with an empty call stack"
  | .invalidKey key => s!"key 0x{Text.hex 2 key.toNat} is outside the keypad range 0x0..=0xF"

end Chip8
