import Chip8.Journal
import Chip8.Machine.Cycle

/-!
# The interpreter

A machine as its host sees it: with the keys that the host holds down, the settings it was made
with, and whether a program is loaded. Every operation answers and leaves an interpreter, the same
one if it fails.
-/

namespace Chip8

/-- Why a program is not loaded. -/
inductive LoadFault
  /-- Another program is there. -/
  | alreadyLoaded
  /-- The program has more bytes than there is room for. -/
  | tooLarge (size limit : Nat)
  deriving DecidableEq, Repr

/-- The wording of a refusal to load. -/
def LoadFault.message : LoadFault → String
  | .alreadyLoaded => "a ROM is already loaded; reset before loading another"
  | .tooLarge size limit => s!"ROM is too large ({size} bytes), max size is {limit} bytes"

/-- What became of a step. -/
inductive Outcome
  /-- The instruction was performed. -/
  | executed (instruction : Instruction)
  /-- The program waits for a key to put into a register. -/
  | awaiting (x : Register)
  deriving DecidableEq, Repr

/-- A machine and what its host knows of it. -/
structure Interpreter where
  /-- The machine. -/
  machine : Machine
  /-- The keys that the host holds down. -/
  keys : Keys
  /-- The settings, which never change. -/
  settings : Settings
  /-- Whether a program was loaded since power-on. -/
  loaded : Bool
  deriving DecidableEq

namespace Interpreter

/-- The interpreter at power-on, whatever the settings. -/
def powerOn (settings : Settings) : Interpreter := ⟨.initial, .released, settings, false⟩

/-- The interpreter with settings under which it can run. -/
def create (settings : Settings) : Except SettingsFault Interpreter :=
  settings.check.map fun () => powerOn settings

/-- The interpreter back at power-on. -/
def reset (interpreter : Interpreter) : Interpreter := powerOn interpreter.settings

/-- Loads a program, unless one is loaded or it is too large. -/
def load (interpreter : Interpreter) (program : List UInt8) :
    Except LoadFault Unit × Interpreter :=
  if interpreter.loaded then (.error .alreadyLoaded, interpreter)
  else if Memory.programLimit < program.length then
    (.error (.tooLarge program.length Memory.programLimit), interpreter)
  else
    let bytes := overwrite Memory.programStart.toNat program interpreter.machine.memory.bytes
    (.ok (), { interpreter with machine.memory := ⟨bytes⟩, loaded := true })

/-- What a cycle depends on, with `random` as the byte that the machine cannot foresee. -/
def inputs (interpreter : Interpreter) (random : UInt8) : Inputs :=
  ⟨interpreter.keys, interpreter.settings.edge, random⟩

/-- One cycle. A machine that is left waiting for a key says so. -/
def step (interpreter : Interpreter) (random : UInt8) : Except Fault Outcome × Interpreter :=
  match interpreter.machine.cycle (interpreter.inputs random) with
  | .error fault => (.error fault, interpreter)
  | .ok (instruction, machine) =>
    (.ok (match machine.awaiting with
      | some x => .awaiting x
      | none => .executed instruction), { interpreter with machine })

/-- Passes over the next instruction. -/
def passOver (interpreter : Interpreter) : Interpreter :=
  { interpreter with machine := interpreter.machine.passOver }

/-- One tick of the timers. -/
def tick (interpreter : Interpreter) : Sound × Interpreter :=
  let (sound, machine) := interpreter.machine.tick
  (sound, { interpreter with machine })

/-- Puts a key down or up. -/
def setKey (interpreter : Interpreter) (byte : UInt8) (isDown : Bool) :
    Except Fault Unit × Interpreter :=
  match Key.ofByte byte with
  | .error fault => (.error fault, interpreter)
  | .ok key => (.ok (), { interpreter with keys := interpreter.keys.set key isDown })

/-- Whether a byte names a key that is down. -/
def isPressed (interpreter : Interpreter) (byte : UInt8) : Bool :=
  match Key.ofByte byte with
  | .error _ => false
  | .ok key => interpreter.keys.isDown key

/-- The frame, if it has changed since it was last taken. -/
def takeFrame (interpreter : Interpreter) : Option Frame × Interpreter :=
  if interpreter.machine.redraw then
    (some interpreter.machine.frame, { interpreter with machine.redraw := false })
  else (none, interpreter)

end Interpreter

end Chip8
