import Chip8.Instruction.Encoding
import Chip8.Machine.Perform

/-!
# One cycle

A cycle fetches the two bytes at the program counter, decodes them and performs the instruction.
The first of the three that faults decides the fault.
-/

namespace Chip8

namespace Machine

/-- The opcode at the program counter. -/
def fetch (machine : Machine) : Except Fault Opcode :=
  (machine.memory.read machine.pc.toNat 2).map fun bytes => .ofBytes bytes[0] bytes[1]

/-- The instruction at the program counter. -/
def instruction (machine : Machine) : Except Fault Instruction :=
  match machine.fetch with
  | .error fault => .error fault
  | .ok opcode =>
    match Instruction.ofOpcode? opcode with
    | none => .error (.unknownOpcode opcode machine.pc)
    | some instruction => .ok instruction

/-- The instruction at the program counter and the machine that it leaves. -/
def cycle (machine : Machine) (inputs : Inputs) : Except Fault (Instruction × Machine) :=
  match machine.instruction with
  | .error fault => .error fault
  | .ok instruction => (machine.perform inputs instruction).map fun next => (instruction, next)

end Machine

end Chip8
