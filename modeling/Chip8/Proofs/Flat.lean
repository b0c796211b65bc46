import Chip8.Proofs.Sprite
import Chip8.Interpreter.Command

/-!
# The interpreter in words and arrays

A second account of the interpreter, as a program without its types would keep it: numbers are
words, pixels and keys are bytes in arrays, and the stack is an array with a count. Every sum,
difference, index and copy is checked where it is made, and one that does not fit breaks the
interpreter. That this never happens to a reachable interpreter is a theorem, not an assumption of
the definitions.
-/

namespace Chip8

/-- Why a flat interpreter does not go on. -/
inductive Stop
  /-- It faults, as the interpreter does. -/
  | fault (fault : Fault)
  /-- It breaks: a number leaves its word, an index its array, or two lengths differ. -/
  | broken
  deriving DecidableEq

/-- An interpreter in words and arrays. -/
structure Flat where
  registers : Vector UInt8 16
  index : UInt16
  pc : UInt16
  /-- The number of slots of the stack in use. -/
  depth : UInt8
  slots : Vector UInt16 16
  delay : UInt8
  sound : UInt8
  memory : Vector UInt8 4096
  /-- The pixels row after row, a lit one as one. -/
  pixels : Vector UInt8 2048
  redraw : Bool
  awaiting : Option UInt8
  /-- The keys, one that is down as one. -/
  keys : Vector UInt8 16
  settings : Settings
  loaded : Bool

namespace Flat

/-- The sum of two bytes, if it is a byte. -/
def sum8 (left right : UInt8) : Except Stop UInt8 :=
  if left.toNat + right.toNat < 256 then .ok (left + right) else .error .broken

/-- The difference of two bytes, if it is not negative. -/
def difference8 (left right : UInt8) : Except Stop UInt8 :=
  if right.toNat ≤ left.toNat then .ok (left - right) else .error .broken

/-- The sum of two words, if it is a word. -/
def sum16 (left right : UInt16) : Except Stop UInt16 :=
  if left.toNat + right.toNat < 65536 then .ok (left + right) else .error .broken

/-- The product of two words, if it is a word. -/
def product16 (left right : UInt16) : Except Stop UInt16 :=
  if left.toNat * right.toNat < 65536 then .ok (left * right) else .error .broken

/-- A number as a size, for which there are thirty-two bits at least. -/
def size (number : Nat) : Except Stop Nat :=
  if number < 4294967296 then .ok number else .error .broken

variable {α : Type} {count : Nat}

/-- The cell at a place. -/
def entry (cells : List α) (place : Nat) : Except Stop α :=
  if inside : place < cells.length then .ok cells[place] else .error .broken

/-- The cells with another one at a place. -/
def put (cells : Vector α count) (place : Nat) (cell : α) : Except Stop (Vector α count) :=
  if inside : place < count then .ok (cells.set place cell) else .error .broken

/-- The cells from one place up to another. -/
def slice (cells : List α) (start stop : Nat) : Except Stop (List α) :=
  if start ≤ stop ∧ stop ≤ cells.length then .ok ((cells.take stop).drop start)
  else .error .broken

/-- The cells with those from one place up to another copied from a source of the same length. -/
def paste (cells : Vector α count) (start stop : Nat) (source : List α) :
    Except Stop (Vector α count) :=
  if start ≤ stop ∧ stop ≤ count ∧ source.length = stop - start then
    .ok (Vector.ofFn fun place =>
      if start ≤ place then source[place - start]?.getD cells[place] else cells[place])
  else .error .broken

/-- The end of a range of memory, or the fault of a range that reaches past memory. -/
def reach (start count : Nat) : Except Stop Nat := do
  let stop ← size (start + count)
  if 4096 < stop then .error (.fault (Memory.missing start)) else .ok stop

/-- The interpreter at power-on. -/
def powerOn (settings : Settings) : Except Stop Flat := do
  let stop ← size (Memory.fontStart.toNat + Memory.font.length)
  let memory ← paste (Vector.replicate 4096 0) Memory.fontStart.toNat stop Memory.font
  return {
    registers := Vector.replicate 16 0, index := 0, pc := Memory.programStart
    depth := 0, slots := Vector.replicate 16 0, delay := 0, sound := 0, memory
    pixels := Vector.replicate 2048 0, redraw := true, awaiting := none
    keys := Vector.replicate 16 0, settings, loaded := false }

/-- The interpreter after a load, which may be refused. -/
def load (flat : Flat) (program : List UInt8) : Except Stop Flat :=
  if flat.loaded then .ok flat
  else if Memory.programLimit < program.length then .ok flat
  else do
    let stop ← reach Memory.programStart.toNat program.length
    let memory ← paste flat.memory Memory.programStart.toNat stop program
    return { flat with memory, loaded := true }

/-- The opcode at the program counter. -/
def opcode (flat : Flat) : Except Stop Opcode := do
  let stop ← reach flat.pc.toNat 2
  let bytes ← slice flat.memory.toList flat.pc.toNat stop
  return .ofBytes (← entry bytes 0) (← entry bytes 1)

/-- The byte in a register. -/
def register (flat : Flat) (x : Register) : Except Stop UInt8 := entry flat.registers.toList x

/-- The address of the next instruction. -/
def next (flat : Flat) : Except Stop UInt16 := sum16 flat.pc 2

/-- The interpreter at the next instruction, with a byte put into a register. -/
def setRegister (flat : Flat) (x : Register) (byte : UInt8) : Except Stop Flat := do
  return { flat with registers := ← put flat.registers x byte, pc := ← flat.next }

/-- The interpreter at the next instruction, with a byte put into a register and then the flag. -/
def setFlagged (flat : Flat) (x : Register) (byte : UInt8) (raised : Bool) : Except Stop Flat := do
  let registers ← put flat.registers x byte
  return {
    flat with
    registers := ← put registers 15 (if raised then 1 else 0), pc := ← flat.next }

/-- Whether the key that a register names is down. -/
def keyDown (flat : Flat) (x : Register) : Except Stop Bool := do
  let key ← flat.register x
  match flat.keys[key.toNat]? with
  | some status => return status ≠ 0
  | none => .error (.fault (.invalidKey key))

/-- Whether a condition holds. -/
def test (flat : Flat) : Condition → Except Stop Bool
  | .holds x byte => do return (← flat.register x) = byte
  | .lacks x byte => do return (← flat.register x) ≠ byte
  | .equal x y => do return (← flat.register x) = (← flat.register y)
  | .different x y => do return (← flat.register x) ≠ (← flat.register y)
  | .pressed x => flat.keyDown x
  | .released x => do return !(← flat.keyDown x)

/-- The pixels with the one at a place toggled, and the registers with the flag raised if it was
lit. -/
def toggle (pixels : Vector UInt8 2048) (registers : Vector UInt8 16) (place : Nat) :
    Except Stop (Vector UInt8 2048 × Vector UInt8 16) := do
  let pixel ← entry pixels.toList place
  let registers ← if pixel = 1 then put registers 15 1 else .ok registers
  let pixels ← put pixels place (pixel ^^^ 1)
  return (pixels, registers)

/-- The pixels and registers after one dot of a sprite is drawn. -/
def drawDot (edge : Edge) (left top : UInt8) (drawn : Vector UInt8 2048 × Vector UInt8 16)
    (dot : Dot) : Except Stop (Vector UInt8 2048 × Vector UInt8 16) := do
  let column ← size (left.toNat + dot.bit)
  let row ← size (top.toNat + dot.row)
  match edge with
  | .clip =>
    if 64 ≤ column ∨ 32 ≤ row then return drawn
    else toggle drawn.1 drawn.2 (← size (column + row * 64))
  | .wrap => toggle drawn.1 drawn.2 (← size (column % 64 + row % 32 * 64))

/-- The interpreter after a sprite is drawn dot by dot. -/
def draw (flat : Flat) (x y : Register) (height : Fin 16) : Except Stop Flat := do
  let stop ← reach flat.index.toNat height
  let sprite ← slice flat.memory.toList flat.index.toNat stop
  let left ← flat.register x
  let top ← flat.register y
  let registers ← put flat.registers 15 0
  let (pixels, registers) ←
    (dots sprite).foldlM (drawDot flat.settings.edge left top) (flat.pixels, registers)
  return { flat with registers, pixels, redraw := true, pc := ← flat.next }

/-- The interpreter at the next instruction, with bytes copied to memory from the index on. -/
def store (flat : Flat) (bytes : List UInt8) : Except Stop Flat := do
  let pc ← flat.next
  let stop ← reach flat.index.toNat bytes.length
  let memory ← paste flat.memory flat.index.toNat stop bytes
  return { flat with memory, pc }

/-- The interpreter that an instruction leaves. -/
def perform (flat : Flat) (random : UInt8) : Instruction → Except Stop Flat
  | .clear => do
    return { flat with pixels := Vector.replicate 2048 0, redraw := true, pc := ← flat.next }
  | .ret =>
    if flat.depth = 0 then .error (.fault (.stackUnderflow flat.pc))
    else do
      let depth ← difference8 flat.depth 1
      let caller ← entry flat.slots.toList depth.toNat
      return { flat with depth, pc := ← sum16 caller 2 }
  | .machineCall _ => do return { flat with pc := ← flat.next }
  | .jump target => .ok { flat with pc := UInt16.ofNat target }
  | .call target =>
    if 16 ≤ flat.depth.toNat then .error (.fault (.stackOverflow flat.pc))
    else do
      let slots ← put flat.slots flat.depth.toNat flat.pc
      return { flat with slots, depth := ← sum8 flat.depth 1, pc := UInt16.ofNat target }
  | .skip condition => do
    let holds ← flat.test condition
    return { flat with pc := ← sum16 flat.pc (if holds then 4 else 2) }
  | .load x byte => flat.setRegister x byte
  | .add x byte => do flat.setRegister x ((← flat.register x) + byte)
  | .combine combination x y => do
    flat.setRegister x (combination.apply (← flat.register x) (← flat.register y))
  | .arithmetic operation x y => do
    let (result, raised) := operation.apply (← flat.register x) (← flat.register y)
    flat.setFlagged x result raised
  | .shift direction x => do
    let (result, raised) := direction.apply (← flat.register x)
    flat.setFlagged x result raised
  | .loadIndex address => do
    return { flat with index := UInt16.ofNat address, pc := ← flat.next }
  | .jumpOffset base => do
    return {
      flat with
      pc := ← sum16 (← flat.register Machine.offset).toUInt16 (UInt16.ofNat base) }
  | .random x mask => flat.setRegister x (random &&& mask)
  | .draw x y height => flat.draw x y height
  | .readDelay x => flat.setRegister x flat.delay
  | .awaitKey x =>
    match (List.range 16).find? fun key => flat.keys[key]?.any (· ≠ 0) with
    | some key => do return { ← flat.setRegister x (UInt8.ofNat key) with awaiting := none }
    | none => .ok { flat with awaiting := some (UInt8.ofNat x) }
  | .setDelay x => do return { flat with delay := ← flat.register x, pc := ← flat.next }
  | .setSound x => do return { flat with sound := ← flat.register x, pc := ← flat.next }
  | .addIndex x => do
    return { flat with index := flat.index + (← flat.register x).toUInt16, pc := ← flat.next }
  | .loadGlyph x => do
    let digit := ((← flat.register x) &&& 0xF).toUInt16
    let offset ← product16 digit Memory.glyphHeight
    return { flat with index := ← sum16 Memory.fontStart offset, pc := ← flat.next }
  | .storeDecimal x => do flat.store (decimalDigits (← flat.register x))
  | .storeRegisters last => do
    flat.store (← slice flat.registers.toList 0 (← size (last + 1)))
  | .loadRegisters last => do
    let count ← size (last + 1)
    let stop ← reach flat.index.toNat count
    let bytes ← slice flat.memory.toList flat.index.toNat stop
    return {
      flat with
      registers := ← paste flat.registers 0 count bytes
      index := flat.index + UInt16.ofNat count
      pc := ← flat.next }

/-- The instruction at the program counter and the interpreter that it leaves. -/
def cycle (flat : Flat) (random : UInt8) : Except Stop (Instruction × Flat) := do
  let opcode ← flat.opcode
  match Instruction.ofOpcode? opcode with
  | none => .error (.fault (.unknownOpcode opcode flat.pc))
  | some instruction => return (instruction, ← flat.perform random instruction)

/-- The interpreter after one step, which a fault leaves as it is. -/
def step (flat : Flat) (random : UInt8) : Except Stop Flat :=
  match flat.cycle random with
  | .ok (_, after) => .ok after
  | .error (.fault _) => .ok flat
  | .error .broken => .error .broken

/-- A timer one tick later. -/
def countDown (timer : UInt8) : Except Stop UInt8 :=
  if 0 < timer then difference8 timer 1 else .ok timer

/-- The interpreter after one tick. -/
def tick (flat : Flat) : Except Stop Flat := do
  return { flat with delay := ← countDown flat.delay, sound := ← countDown flat.sound }

/-- The interpreter with a key put down or up, if the byte names one. -/
def setKey (flat : Flat) (key status : UInt8) : Flat :=
  if inside : key.toNat < 16 then { flat with keys := flat.keys.set key.toNat status } else flat

/-- The interpreter after a command. -/
def apply (flat : Flat) : Command → Except Stop Flat
  | .load program => flat.load program
  | .reset => powerOn flat.settings
  | .step random => flat.step random
  | .passOver => .ok { flat with pc := flat.pc + 2, awaiting := none }
  | .tick => flat.tick
  | .press key => .ok (flat.setKey key 1)
  | .release key => .ok (flat.setKey key 0)
  | .takeFrame => .ok { flat with redraw := false }

end Flat

/-- The pixels of a frame row after row, a lit one as one. -/
def Frame.cells (frame : Frame) : Vector UInt8 2048 :=
  Vector.ofFn fun place =>
    if frame.lit ⟨place % 64, by omega⟩ ⟨place / 64, by omega⟩ then 1 else 0

/-- The keys in order, one that is down as one. -/
def Keys.cells (keys : Keys) : Vector UInt8 16 :=
  keys.down.map fun isDown => if isDown then 1 else 0

/-- An interpreter laid out in words and arrays. -/
def Interpreter.flat (interpreter : Interpreter) : Flat where
  registers := interpreter.machine.registers
  index := interpreter.machine.index
  pc := interpreter.machine.pc
  depth := UInt8.ofNat interpreter.machine.stack.depth
  slots := interpreter.machine.stack.slots
  delay := interpreter.machine.delay
  sound := interpreter.machine.sound
  memory := interpreter.machine.memory.bytes
  pixels := interpreter.machine.frame.cells
  redraw := interpreter.machine.redraw
  awaiting := interpreter.machine.awaiting.map fun x => UInt8.ofNat x
  keys := interpreter.keys.cells
  settings := interpreter.settings
  loaded := interpreter.loaded

namespace Interpreter

variable (interpreter : Interpreter)

-- The parts of the layout that instructions read, each under the name of its field.

@[simp] theorem registers_flat : interpreter.flat.registers = interpreter.machine.registers := rfl

@[simp] theorem index_flat : interpreter.flat.index = interpreter.machine.index := rfl

@[simp] theorem pc_flat : interpreter.flat.pc = interpreter.machine.pc := rfl

@[simp] theorem memory_flat : interpreter.flat.memory = interpreter.machine.memory.bytes := rfl

@[simp] theorem pixels_flat : interpreter.flat.pixels = interpreter.machine.frame.cells := rfl

@[simp] theorem keys_flat : interpreter.flat.keys = interpreter.keys.cells := rfl

@[simp] theorem loaded_flat : interpreter.flat.loaded = interpreter.loaded := rfl

end Interpreter

end Chip8
