import Chip8.Fault

/-!
# Keys

The sixteen keys of the pad, each up or down. The host names a key by a byte, of which only the
first sixteen name one.
-/

namespace Chip8

/-- One of the sixteen keys. -/
abbrev Key := Fin 16

/-- The key that a byte names. -/
def Key.ofByte (byte : UInt8) : Except Fault Key :=
  if inside : byte.toNat < 16 then .ok ⟨byte.toNat, inside⟩ else .error (.invalidKey byte)

/-- The byte that names a key. -/
def Key.toByte (key : Key) : UInt8 := UInt8.ofNat key

/-- A key is named by its byte. -/
@[simp] theorem Key.ofByte_toByte (key : Key) : Key.ofByte key.toByte = .ok key := by
  have low : key.toByte.toNat = key := by simp only [Key.toByte, UInt8.toNat_ofNat']; omega
  simp [Key.ofByte, low]

/-- A byte names the key of its number. -/
theorem Key.ofByte_eq_ok_iff (byte : UInt8) (key : Key) :
    Key.ofByte byte = .ok key ↔ byte.toNat = key := by
  unfold ofByte
  split
  case isTrue low => rw [Except.ok.injEq, Fin.ext_iff]
  case isFalse high =>
    have apart : byte.toNat ≠ key := by omega
    simp only [reduceCtorEq, apart]

/-- The state of the pad. -/
structure Keys where
  /-- Whether each key is down. -/
  down : Vector Bool 16
  deriving DecidableEq, Repr

namespace Keys

/-- The number of keys. -/
def count : Nat := 16

/-- The pad with every key up. -/
def released : Keys := ⟨Vector.replicate 16 false⟩

/-- Whether a key is down. -/
def isDown (keys : Keys) (key : Key) : Bool := keys.down[key]

/-- The pad with one key put down or up. -/
def set (keys : Keys) (key : Key) (isDown : Bool) : Keys := ⟨keys.down.set key isDown⟩

/-- The lowest key that is down. -/
def lowest? (keys : Keys) : Option Key := (List.finRange 16).find? keys.isDown

/-- The keys that are down, in ascending order. -/
def toList (keys : Keys) : List Key := (List.finRange 16).filter keys.isDown

/-- No key of the released pad is down. -/
@[simp] theorem isDown_released (key : Key) : released.isDown key = false := by
  simp [released, isDown]

/-- Setting a key decides that key and no other. -/
theorem isDown_set (keys : Keys) (key other : Key) (isDown : Bool) :
    (keys.set key isDown).isDown other = if other = key then isDown else keys.isDown other := by
  simp only [set, Keys.isDown, Fin.getElem_fin, Vector.getElem_set, Fin.ext_iff, eq_comm]

end Keys

end Chip8
