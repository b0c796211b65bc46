import Chip8.Fault

/-!
# Memory

The 4096 bytes of memory, with the glyphs of the sixteen digits in the part below the program. An
access is checked as a whole before it is made: it reads or writes every byte of its range or
faults with the first address that memory lacks.
-/

namespace Chip8

/-- The cells with `bytes` written over them from `start` on; what reaches past the end is cut
off. -/
def overwrite (start : Nat) : List UInt8 → Vector UInt8 4096 → Vector UInt8 4096
  | [], cells => cells
  | byte :: bytes, cells => overwrite (start + 1) bytes (cells.setIfInBounds start byte)

/-- A cell in the range that is overwritten holds the byte at its place, and any other cell what it
held before. -/
theorem getElem_overwrite (start : Nat) (bytes : List UInt8) (cells : Vector UInt8 4096)
    (address : Nat) (inside : address < 4096) :
    (overwrite start bytes cells)[address] =
      if start ≤ address then bytes[address - start]?.getD cells[address] else cells[address] := by
  induction bytes generalizing start cells with
  | nil => simp [overwrite]
  | cons byte bytes ih =>
    rw [overwrite, ih, Vector.getElem_setIfInBounds]
    by_cases here : start = address
    · subst here
      have : ¬ start + 1 ≤ start := by omega
      simp [this]
    · by_cases below : start ≤ address
      · have later : start + 1 ≤ address := by omega
        have shift : address - start = address - (start + 1) + 1 := by omega
        simp [here, below, later, shift]
      · have : ¬ start + 1 ≤ address := by omega
        simp [here, below, this]

/-- The memory of the machine. -/
structure Memory where
  /-- The byte at each address. -/
  bytes : Vector UInt8 4096
  deriving DecidableEq, Repr

namespace Memory

/-- The number of bytes of memory. -/
def size : Nat := 4096

/-- The address at which programs are loaded and started. -/
def programStart : UInt16 := 0x200

/-- The greatest size of a program, which is all memory from its start on. -/
def programLimit : Nat := size - programStart.toNat

/-- The address of the first glyph. -/
def fontStart : UInt16 := 0x50

/-- The number of rows of a glyph. -/
def glyphHeight : UInt16 := 5

/-- The glyphs of the digits, five rows of eight pixels each. -/
def font : List UInt8 :=
  [0xF0, 0x90, 0x90, 0x90, 0xF0,
   0x20, 0x60, 0x20, 0x20, 0x70,
   0xF0, 0x10, 0xF0, 0x80, 0xF0,
   0xF0, 0x10, 0xF0, 0x10, 0xF0,
   0x90, 0x90, 0xF0, 0x10, 0x10,
   0xF0, 0x80, 0xF0, 0x10, 0xF0,
   0xF0, 0x80, 0xF0, 0x90, 0xF0,
   0xF0, 0x10, 0x20, 0x40, 0x40,
   0xF0, 0x90, 0xF0, 0x90, 0xF0,
   0xF0, 0x90, 0xF0, 0x10, 0xF0,
   0xF0, 0x90, 0xF0, 0x90, 0x90,
   0xE0, 0x90, 0xE0, 0x90, 0xE0,
   0xF0, 0x80, 0x80, 0x80, 0xF0,
   0xE0, 0x90, 0x90, 0x90, 0xE0,
   0xF0, 0x80, 0xF0, 0x80, 0xF0,
   0xF0, 0x80, 0xF0, 0x80, 0x80]

/-- Memory at power-on: the glyphs, and zero everywhere else. -/
def initial : Memory := ⟨overwrite fontStart.toNat font (Vector.replicate 4096 0)⟩

/-- Memory at power-on holds the glyphs from their start on, and zero everywhere else. -/
theorem getElem_initial (address : Nat) (inside : address < 4096) :
    initial.bytes[address] = if 80 ≤ address then font[address - 80]?.getD 0 else 0 := by
  have start : fontStart.toNat = 80 := rfl
  have zero : (Vector.replicate 4096 (0 : UInt8))[address] = 0 := Vector.getElem_replicate inside
  show (overwrite _ _ _)[address] = _
  rw [getElem_overwrite, zero, start]

/-- The fault of an access from `start` on that reaches past the end. -/
def missing (start : Nat) : Fault := .outOfBounds (max start 4096)

/-- The bytes of the `count` addresses from `start` on. -/
def read (memory : Memory) (start count : Nat) : Except Fault (Vector UInt8 count) :=
  if inside : start + count ≤ 4096 then .ok (Vector.ofFn fun place => memory.bytes[start + place])
  else .error (missing start)

/-- Memory with `bytes` written from `start` on. -/
def write (memory : Memory) (start : Nat) (bytes : List UInt8) : Except Fault Memory :=
  if start + bytes.length ≤ 4096 then .ok ⟨overwrite start bytes memory.bytes⟩
  else .error (missing start)

/-- The address of the glyph of the low digit of a byte. -/
def glyph (byte : UInt8) : UInt16 := fontStart + (byte &&& 0xF).toUInt16 * glyphHeight

/-- A read faults exactly when its range reaches past the end. -/
theorem read_eq_error_iff (memory : Memory) (start count : Nat) (fault : Fault) :
    memory.read start count = .error fault ↔ 4096 < start + count ∧ fault = missing start := by
  unfold read
  split
  case isTrue inside => simp; omega
  case isFalse outside =>
    rw [Except.error.injEq, eq_comm]
    exact ⟨fun same => ⟨by omega, same⟩, And.right⟩

/-- A write faults exactly when its range reaches past the end. -/
theorem write_eq_error_iff (memory : Memory) (start : Nat) (bytes : List UInt8) (fault : Fault) :
    memory.write start bytes = .error fault ↔
      4096 < start + bytes.length ∧ fault = missing start := by
  unfold write
  split
  case isTrue inside => simp; omega
  case isFalse outside =>
    rw [Except.error.injEq, eq_comm]
    exact ⟨fun same => ⟨by omega, same⟩, And.right⟩

end Memory

end Chip8
