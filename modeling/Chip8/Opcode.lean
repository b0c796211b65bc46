import Chip8.Text.Hex

/-!
# Opcodes

An opcode is two bytes of memory, read as four hexadecimal digits. The digits are the parts that
instructions are told apart by and take their operands from: the first names the family, the
second and third name registers, the last is a small number, the last two together are a byte, and
the last three are an address. A word and its digits determine each other.
-/

namespace Chip8

/-- The name of one of the sixteen registers. -/
abbrev Register := Fin 16

/-- An address that an opcode can name, which is any address of memory. -/
abbrev Address := Fin 4096

/-- The high digit of a byte. -/
def highDigit (byte : UInt8) : Fin 16 := ⟨byte.toNat / 16, by have := byte.toNat_lt; omega⟩

/-- The low digit of a byte. -/
def lowDigit (byte : UInt8) : Fin 16 := ⟨byte.toNat % 16, Nat.mod_lt _ (by decide)⟩

/-- The byte with the given digits. -/
def byteOfDigits (high low : Fin 16) : UInt8 := UInt8.ofNat (16 * high + low)

/-- The number of a byte is read off its digits. -/
theorem toNat_byteOfDigits (high low : Fin 16) :
    (byteOfDigits high low).toNat = 16 * high + low := by
  simp only [byteOfDigits, UInt8.toNat_ofNat']; omega

/-- A byte is the byte of its digits. -/
@[simp] theorem byteOfDigits_digits (byte : UInt8) :
    byteOfDigits (highDigit byte) (lowDigit byte) = byte := by
  apply UInt8.toNat_inj.mp
  simp only [toNat_byteOfDigits, highDigit, lowDigit]; omega

/-- The high digit of the byte of two digits is the first of them. -/
@[simp] theorem highDigit_byteOfDigits (high low : Fin 16) :
    highDigit (byteOfDigits high low) = high := by
  apply Fin.ext; simp only [highDigit, toNat_byteOfDigits]; omega

/-- The low digit of the byte of two digits is the second of them. -/
@[simp] theorem lowDigit_byteOfDigits (high low : Fin 16) :
    lowDigit (byteOfDigits high low) = low := by
  apply Fin.ext; simp only [lowDigit, toNat_byteOfDigits]; omega

/-- Four hexadecimal digits, the first one the highest. -/
structure Opcode where
  /-- The first digit, which names the family of the instruction. -/
  family : Fin 16
  /-- The second digit, which names a register in most families. -/
  x : Fin 16
  /-- The third digit, which names a second register. -/
  y : Fin 16
  /-- The last digit. -/
  n : Fin 16
  deriving DecidableEq, Repr

namespace Opcode

/-- The opcode that two bytes of memory hold, the high byte first. -/
def ofBytes (high low : UInt8) : Opcode :=
  ⟨highDigit high, lowDigit high, highDigit low, lowDigit low⟩

/-- The high byte. -/
def high (opcode : Opcode) : UInt8 := byteOfDigits opcode.family opcode.x

/-- The last two digits as a byte, which is also the low byte. -/
def byte (opcode : Opcode) : UInt8 := byteOfDigits opcode.y opcode.n

/-- The last three digits as an address. -/
def address (opcode : Opcode) : Address := ⟨256 * opcode.x + 16 * opcode.y + opcode.n, by omega⟩

/-- The opcode as a word. -/
def toWord (opcode : Opcode) : UInt16 :=
  UInt16.ofNat (4096 * opcode.family + opcode.address)

/-- The opcode of a word. -/
def ofWord (word : UInt16) : Opcode :=
  ofBytes (UInt8.ofNat (word.toNat / 256)) (UInt8.ofNat word.toNat)

/-- The four digits in order. -/
def digits (opcode : Opcode) : List (Fin 16) := [opcode.family, opcode.x, opcode.y, opcode.n]

/-- The text of an opcode is its four digits. -/
def text (opcode : Opcode) : String := String.ofList (opcode.digits.map Text.hexDigit)

/-- The bytes of an opcode give it back. -/
@[simp] theorem ofBytes_high_byte (opcode : Opcode) :
    ofBytes opcode.high opcode.byte = opcode := by
  simp [ofBytes, high, byte]

/-- The high byte of the opcode of two bytes is the first of them. -/
@[simp] theorem high_ofBytes (first second : UInt8) : (ofBytes first second).high = first := by
  simp [ofBytes, high]

/-- The low byte of the opcode of two bytes is the second of them. -/
@[simp] theorem byte_ofBytes (first second : UInt8) : (ofBytes first second).byte = second := by
  simp [ofBytes, byte]

/-- The number of an opcode is read off its digits. -/
theorem toNat_toWord (opcode : Opcode) :
    opcode.toWord.toNat =
      4096 * opcode.family + 256 * opcode.x + 16 * opcode.y + opcode.n := by
  simp only [toWord, address, UInt16.toNat_ofNat']; omega

/-- The digits of a word are its digits in base sixteen. -/
theorem toWord_ofWord (word : UInt16) : (ofWord word).toWord = word := by
  apply UInt16.toNat_inj.mp
  have := word.toNat_lt
  simp only [toNat_toWord, ofWord, ofBytes, highDigit, lowDigit, UInt8.toNat_ofNat']; omega

/-- An opcode is the opcode of its word. -/
theorem ofWord_toWord (opcode : Opcode) : ofWord opcode.toWord = opcode := by
  obtain ⟨family, x, y, n⟩ := opcode
  simp only [ofWord, toNat_toWord, ofBytes, highDigit, lowDigit, UInt8.toNat_ofNat',
    Opcode.mk.injEq, Fin.ext_iff]
  omega

end Opcode

end Chip8
