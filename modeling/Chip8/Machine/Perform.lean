import Chip8.Frame.Sprite
import Chip8.Instruction
import Chip8.Keys
import Chip8.Machine

/-!
# What instructions do

The machine that an instruction leaves, or the fault for which it is not performed. Every operand
is read from the machine before any result is put into it, and a fault leaves nothing half done
because no machine comes of it.
-/

namespace Chip8

/-- What an instruction depends on beside the machine. -/
structure Inputs where
  /-- The keys as they are. -/
  keys : Keys
  /-- What becomes of sprites at the edge. -/
  edge : Edge
  /-- A byte that the machine cannot foresee. -/
  random : UInt8

/-- The value of a combination. -/
def Combination.apply (combination : Combination) (vx vy : UInt8) : UInt8 :=
  match combination with
  | .copy => vy
  | .or => vx ||| vy
  | .and => vx &&& vy
  | .xor => vx ^^^ vy

/-- The value of an arithmetic operation and whether its flag is raised. -/
def Arithmetic.apply (operation : Arithmetic) (vx vy : UInt8) : UInt8 × Bool :=
  match operation with
  | .add => (vx + vy, 256 ≤ vx.toNat + vy.toNat)
  | .subtract => (vx - vy, vy ≤ vx)
  | .subtractFrom => (vy - vx, vx ≤ vy)

/-- The value of a shift by one place and the bit shifted out. -/
def Shift.apply (direction : Shift) (vx : UInt8) : UInt8 × Bool :=
  match direction with
  | .right => (vx >>> 1, vx % 2 = 1)
  | .left => (vx <<< 1, 128 ≤ vx)

/-- The decimal digits of a byte, hundreds first. -/
def decimalDigits (byte : UInt8) : List UInt8 := [byte / 100, byte / 10 % 10, byte % 10]

namespace Machine

/-- Whether a condition holds; a byte that names no key is a fault. -/
def test (machine : Machine) (keys : Keys) (condition : Condition) : Except Fault Bool :=
  match condition with
  | .holds x byte => .ok (machine.register x = byte)
  | .lacks x byte => .ok (machine.register x ≠ byte)
  | .equal x y => .ok (machine.register x = machine.register y)
  | .different x y => .ok (machine.register x ≠ machine.register y)
  | .pressed x => (Key.ofByte (machine.register x)).map fun key => keys.isDown key
  | .released x => (Key.ofByte (machine.register x)).map fun key => !keys.isDown key

/-- The machine after a sprite is drawn, flagged if the sprite meets lit pixels. -/
def stamp (machine : Machine) (sprite : Frame) : Machine :=
  (machine.present (machine.frame.toggle sprite)).setRegister flag
    (if machine.frame.meets sprite then 1 else 0)

/-- The registers with the first ones replaced by `bytes`. -/
def withFirst {count : Nat} (registers : Vector UInt8 16) (bytes : Vector UInt8 count) :
    Vector UInt8 16 :=
  Vector.ofFn fun x => bytes[x.val]?.getD (registers.get x)

/-- The machine that an instruction leaves. -/
def perform (machine : Machine) (inputs : Inputs) : Instruction → Except Fault Machine
  | .clear => .ok (machine.advance.present .blank)
  | .ret =>
    match machine.stack.pop? with
    | some (caller, stack) => .ok { machine with pc := caller + 2, stack }
    | none => .error (.stackUnderflow machine.pc)
  | .machineCall _ => .ok machine.advance
  | .jump target => .ok { machine with pc := UInt16.ofNat target }
  | .call target =>
    match machine.stack.push? machine.pc with
    | some stack => .ok { machine with pc := UInt16.ofNat target, stack }
    | none => .error (.stackOverflow machine.pc)
  | .skip condition => (machine.test inputs.keys condition).map machine.skipIf
  | .load x byte => .ok (machine.advance.setRegister x byte)
  | .add x byte => .ok (machine.advance.setRegister x (machine.register x + byte))
  | .combine combination x y =>
    .ok (machine.advance.setRegister x
      (combination.apply (machine.register x) (machine.register y)))
  | .arithmetic operation x y =>
    let (result, raised) := operation.apply (machine.register x) (machine.register y)
    .ok (machine.advance.setFlagged x result raised)
  | .shift direction x =>
    let (result, raised) := direction.apply (machine.register x)
    .ok (machine.advance.setFlagged x result raised)
  | .loadIndex address => .ok { machine.advance with index := UInt16.ofNat address }
  | .jumpOffset base =>
    .ok { machine with pc := (machine.register offset).toUInt16 + UInt16.ofNat base }
  | .random x mask => .ok (machine.advance.setRegister x (inputs.random &&& mask))
  | .draw x y height =>
    (machine.memory.read machine.index.toNat height).map fun sprite =>
      machine.advance.stamp
        (.ofSprite inputs.edge sprite.toList (machine.register x) (machine.register y))
  | .readDelay x => .ok (machine.advance.setRegister x machine.delay)
  | .awaitKey x =>
    match inputs.keys.lowest? with
    | some key => .ok { machine.advance.setRegister x key.toByte with awaiting := none }
    | none => .ok { machine with awaiting := some x }
  | .setDelay x => .ok { machine.advance with delay := machine.register x }
  | .setSound x => .ok { machine.advance with sound := machine.register x }
  | .addIndex x =>
    .ok { machine.advance with index := machine.index + (machine.register x).toUInt16 }
  | .loadGlyph x => .ok { machine.advance with index := Memory.glyph (machine.register x) }
  | .storeDecimal x =>
    (machine.memory.write machine.index.toNat (decimalDigits (machine.register x))).map
      fun memory => { machine.advance with memory }
  | .storeRegisters last =>
    (machine.memory.write machine.index.toNat (machine.registers.toList.take (last + 1))).map
      fun memory => { machine.advance with memory }
  | .loadRegisters last =>
    (machine.memory.read machine.index.toNat (last + 1)).map fun bytes =>
      { machine.advance with
        registers := withFirst machine.registers bytes
        index := machine.index + UInt16.ofNat (last + 1) }

end Machine

end Chip8
