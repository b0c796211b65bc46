import Chip8.Keys

/-!
# The journal

What is noted down while a machine runs, for whoever looks for the reason of something. A record
carries what happened; its level and its wording follow from that.
-/

namespace Chip8

/-- How much a record matters. -/
inductive Level
  /-- The program failed. -/
  | error
  /-- Something went wrong that the program goes on after. -/
  | warn
  /-- Something the user may want to know. -/
  | info
  /-- Something that explains what the machine does. -/
  | debug
  /-- A single cycle. -/
  | trace
  deriving DecidableEq, Repr

/-- The name of a level. -/
def Level.name : Level → String
  | .error => "ERROR"
  | .warn => "WARN"
  | .info => "INFO"
  | .debug => "DEBUG"
  | .trace => "TRACE"

namespace Level

/-- The levels, the gravest first. -/
def all : List Level := [.error, .warn, .info, .debug, .trace]

/-- Whether a level is as grave as a given one or graver. -/
def reaches (level least : Level) : Bool := all.idxOf level ≤ all.idxOf least

/-- The level of a name. -/
def ofName? (name : String) : Option Level := all.find? fun level => level.name = name

end Level

/-- Something that happened. -/
inductive Record
  /-- The machine went back to power-on. -/
  | reset
  /-- A program of a number of bytes was loaded. -/
  | programLoaded (size : Nat)
  /-- An opcode is about to be performed with these registers, index and program counter. -/
  | cycle (opcode : Opcode) (registers : Vector UInt8 16) (index pc : UInt16)
  /-- A call of the host was passed over. -/
  | machineCall (target : Address) (pc : UInt16)
  /-- The cycle at an address faulted. -/
  | faulted (pc : UInt16) (fault : Fault)
  /-- A typed character names no key. -/
  | notAKey (char : Char)
  /-- A key was put down. -/
  | keyDown (key : Key)
  /-- The program of a file was loaded. -/
  | fileLoaded (name : String) (size : Nat)
  /-- The program waits for a key to put into a register. -/
  | awaiting (x : Register)
  /-- The run ended after the cycles that it was allowed. -/
  | stopped (cycles : Nat)
  deriving DecidableEq

namespace Record

/-- The level of a record. -/
def level : Record → Level
  | .faulted .. | .notAKey .. => .warn
  | .fileLoaded .. | .awaiting .. | .stopped .. => .info
  | .reset | .programLoaded .. | .machineCall .. | .keyDown .. => .debug
  | .cycle .. => .trace

/-- A character between quotes; a quote or a backslash has a backslash in front. -/
def quoted (char : Char) : String :=
  if char = '\'' ∨ char = '\\' then s!"'\\{char}'" else s!"'{char}'"

/-- The registers as bytes of two digits. -/
def registerText (registers : Vector UInt8 16) : String :=
  ", ".intercalate (registers.toList.map fun byte => Text.hex 2 byte.toNat)

/-- The wording of a record. -/
def message : Record → String
  | .reset => "resetting interpreter"
  | .programLoaded size => s!"loaded {size} byte rom"
  | .cycle opcode registers index pc =>
    s!"{opcode.text} v[{registerText registers}] i{Text.hex 4 index.toNat} pc{Text.hex 4 pc.toNat}"
  | .machineCall target pc =>
    s!"ignoring machine code call to {Text.hex 3 target} at {Text.hex 3 pc.toNat}"
  | .faulted pc fault => s!"cycle at {Text.hex 3 pc.toNat} faulted: {fault.message}"
  | .notAKey char => s!"ignoring {quoted char}, keys are 0-9 and a-f"
  | .keyDown key => s!"key {Text.hex 1 key} down"
  | .fileLoaded name size => s!"loaded {name} ({size} bytes)"
  | .awaiting x => s!"waiting on a key for V{Text.hex 1 x}, type a hex digit"
  | .stopped cycles => s!"stopped after {cycles} cycles"

/-- A record as a line of text. -/
def line (record : Record) : String := s!"{record.level.name} {record.message}"

end Record

end Chip8
