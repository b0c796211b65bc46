import Chip8.CallStack
import Chip8.Frame
import Chip8.Memory

/-!
# The machine

Registers, timers, stack, memory and frame. The last register is the flag. The machine remembers
that its frame has changed since the host last took it, and which register is to receive a key that
the program waits for.
-/

namespace Chip8

/-- Whether the host is to sound the buzzer. -/
inductive Sound
  /-- Nothing is to be heard. -/
  | silent
  /-- The sound timer has just run out. -/
  | beep
  deriving DecidableEq, Repr

/-- The state of the machine. -/
structure Machine where
  /-- The sixteen registers. -/
  registers : Vector UInt8 16
  /-- The index, at which instructions that use memory start. -/
  index : UInt16
  /-- The address of the next instruction. -/
  pc : UInt16
  /-- The calls that have not returned. -/
  stack : CallStack
  /-- The ticks left on the delay timer. -/
  delay : UInt8
  /-- The ticks left on the sound timer. -/
  sound : UInt8
  /-- The memory. -/
  memory : Memory
  /-- The display. -/
  frame : Frame
  /-- Whether the host has yet to take the frame as it is. -/
  redraw : Bool
  /-- The register that is to receive the key waited for. -/
  awaiting : Option Register
  deriving DecidableEq

namespace Machine

/-- The machine at power-on: at the start of the program, with a blank frame yet to be shown. -/
def initial : Machine where
  registers := Vector.replicate 16 0
  index := 0
  pc := Memory.programStart
  stack := .empty
  delay := 0
  sound := 0
  memory := .initial
  frame := .blank
  redraw := true
  awaiting := none

/-- The register that holds the flag, which is the last one. -/
def flag : Register := Fin.last 15

/-- The register that an offset jump adds, which is the first one. -/
def offset : Register := ⟨0, by decide⟩

/-- The byte in a register. -/
def register (machine : Machine) (x : Register) : UInt8 := machine.registers[x]

/-- The machine with a byte put into a register. -/
def setRegister (machine : Machine) (x : Register) (byte : UInt8) : Machine :=
  { machine with registers := machine.registers.set x byte }

/-- The machine with a byte put into a register and then the flag set, which wins if the register
is the flag. -/
def setFlagged (machine : Machine) (x : Register) (byte : UInt8) (raised : Bool) : Machine :=
  (machine.setRegister x byte).setRegister flag (if raised then 1 else 0)

/-- The machine at the next instruction. From the last two addresses of a word the program counter
wraps around (`toNat_add_two`), where checked sums break (`Interpreter.perform_flat_eq_ok_iff`); but
no instruction is fetched so far beyond memory. -/
def advance (machine : Machine) : Machine := { machine with pc := machine.pc + 2 }

/-- The machine at the next instruction, or past it if it is to be skipped. The program counter
wraps around as in `advance`, and from two more addresses if it skips (`toNat_add_four`). -/
def skipIf (machine : Machine) (condition : Bool) : Machine :=
  { machine with pc := if condition then machine.pc + 4 else machine.pc + 2 }

/-- The machine with another frame, which the host has yet to take. -/
def present (machine : Machine) (frame : Frame) : Machine := { machine with frame, redraw := true }

/-- One tick: both timers count down to zero, and the buzzer sounds as its timer gets there. -/
def tick (machine : Machine) : Sound × Machine :=
  (if machine.sound = 1 then .beep else .silent,
    { machine with
      delay := if machine.delay = 0 then 0 else machine.delay - 1
      sound := if machine.sound = 0 then 0 else machine.sound - 1 })

/-- The machine past its next instruction without executing it; a wait is given up. The host may do
this anywhere, and the program counter wraps around at the end of its word. -/
def passOver (machine : Machine) : Machine :=
  { machine with pc := machine.pc + 2, awaiting := none }

/-- Two addresses on, a word has not wrapped around unless it was one of the last two. -/
theorem toNat_add_two {address : UInt16} (room : address.toNat < 0xFFFE) :
    (address + 2).toNat = address.toNat + 2 := by
  have two : (2 : UInt16).toNat = 2 := rfl
  rw [UInt16.toNat_add, two]
  omega

/-- Nor has it four addresses on unless it was one of the last four. -/
theorem toNat_add_four {address : UInt16} (room : address.toNat < 0xFFFC) :
    (address + 4).toNat = address.toNat + 4 := by
  have four : (4 : UInt16).toNat = 4 := rfl
  rw [UInt16.toNat_add, four]
  omega

/-- A register that is set holds the byte, and the others what they held before. -/
@[simp] theorem register_setRegister (machine : Machine) (x other : Register) (byte : UInt8) :
    (machine.setRegister x byte).register other =
      if other = x then byte else machine.register other := by
  simp only [setRegister, register, Fin.getElem_fin, Vector.getElem_set, Fin.ext_iff, eq_comm]

/-- The flag of a flagged result is one or zero, as raised. -/
theorem register_flag_setFlagged (machine : Machine) (x : Register) (byte : UInt8)
    (raised : Bool) :
    (machine.setFlagged x byte raised).register flag = if raised then 1 else 0 := by
  simp [setFlagged]

/-- A register other than the flag receives a flagged result. -/
theorem register_setFlagged (machine : Machine) (x : Register) (byte : UInt8) (raised : Bool)
    (other : Register) (plain : other ≠ flag) :
    (machine.setFlagged x byte raised).register other =
      if other = x then byte else machine.register other := by
  simp [setFlagged, plain]

end Machine

end Chip8
