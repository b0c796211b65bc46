import Chip8.Interpreter

/-!
# Commands

The operations of a host as values, so that what holds after any number of them can be said. Each
command has a reply, the interpreter it leaves, and the records that it adds to the journal.
-/

namespace Chip8

/-- An operation of the host. -/
inductive Command
  /-- Load a program. -/
  | load (program : List UInt8)
  /-- Go back to power-on. -/
  | reset
  /-- Run one cycle with a byte that the machine cannot foresee. -/
  | step (random : UInt8)
  /-- Pass over the next instruction. -/
  | passOver
  /-- Count the timers down. -/
  | tick
  /-- Put down the key that a byte names. -/
  | press (key : UInt8)
  /-- Let go of the key that a byte names. -/
  | release (key : UInt8)
  /-- Take the frame if it has changed. -/
  | takeFrame
  deriving DecidableEq, Repr

/-- What a command answers. -/
inductive Reply
  /-- It cannot fail. -/
  | done
  /-- Whether the program was loaded. -/
  | loaded (result : Except LoadFault Unit)
  /-- What became of the step. -/
  | stepped (result : Except Fault Outcome)
  /-- Whether the buzzer is to sound. -/
  | ticked (sound : Sound)
  /-- Whether the byte names a key. -/
  | keySet (result : Except Fault Unit)
  /-- The frame, if it has changed. -/
  | frame (taken : Option Frame)

/-- What is noted down when a machine is about to perform its next instruction; nothing if that does
not decode. -/
def Machine.records (machine : Machine) : List Record :=
  match machine.fetch with
  | .error _ => []
  | .ok opcode =>
    let cycle := Record.cycle opcode machine.registers machine.index machine.pc
    match Instruction.ofOpcode? opcode with
    | none => []
    | some (.machineCall target) => [cycle, .machineCall target machine.pc]
    | some _ => [cycle]

namespace Interpreter

/-- The reply to a command and the interpreter it leaves. -/
def apply (interpreter : Interpreter) : Command → Reply × Interpreter
  | .load program => (interpreter.load program).map .loaded id
  | .reset => (.done, interpreter.reset)
  | .step random => (interpreter.step random).map .stepped id
  | .passOver => (.done, interpreter.passOver)
  | .tick => interpreter.tick.map .ticked id
  | .press key => (interpreter.setKey key true).map .keySet id
  | .release key => (interpreter.setKey key false).map .keySet id
  | .takeFrame => interpreter.takeFrame.map .frame id

/-- The interpreter after a list of commands. -/
def applyAll (interpreter : Interpreter) (commands : List Command) : Interpreter :=
  commands.foldl (fun current command => (current.apply command).2) interpreter

/-- What a step notes down: the cycle if it decodes, and the fault if there is one. -/
def stepRecords (interpreter : Interpreter) (random : UInt8) : List Record :=
  interpreter.machine.records ++
    match (interpreter.step random).1 with
    | .error fault => [.faulted interpreter.machine.pc fault]
    | .ok _ => []

/-- What a command notes down. -/
def records (interpreter : Interpreter) : Command → List Record
  | .load program =>
    match (interpreter.load program).1 with
    | .ok () => [.programLoaded program.length]
    | .error _ => []
  | .reset => [.reset]
  | .step random => interpreter.stepRecords random
  | _ => []

end Interpreter

end Chip8
