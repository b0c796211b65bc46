import Chip8.Frame
import Chip8.Settings

/-!
# Sprites

A sprite is up to fifteen rows of eight pixels, a byte each, its leftmost pixel the highest bit.
Placed with its corner at a position, it is a frame of its own, which is what drawing toggles. A
position beyond the edge is meant: a clipped sprite there is not seen, a wrapped one comes in from
the opposite edge.
-/

namespace Chip8

/-- The row of the display with a byte at its left end. -/
def leftmost (byte : UInt8) : BitVec 64 := byte.toBitVec.setWidth 64 <<< 56

/-- The row of the display that eight pixels make when the first of them is at `column`. -/
def Edge.strip (edge : Edge) (column : Nat) (byte : UInt8) : BitVec 64 :=
  match edge with
  | .clip => leftmost byte >>> column
  | .wrap => (leftmost byte).rotateRight column

/-- The place, in a sprite whose first row is on row `top`, of the row that falls on row `row`. -/
def Edge.place? (edge : Edge) (top row : Nat) : Option Nat :=
  match edge with
  | .clip => if top ≤ row then some (row - top) else none
  | .wrap => some ((row + 32 - top % 32) % 32)

/-- The frame of a sprite alone, with its corner at column `left` and row `top`. -/
def Frame.ofSprite (edge : Edge) (sprite : List UInt8) (left top : UInt8) : Frame :=
  ⟨Vector.ofFn fun row =>
    match (edge.place? top.toNat row).bind fun place => sprite[place]? with
    | some byte => edge.strip left.toNat byte
    | none => 0⟩

/-- The first eight pixels of a byte's row are its bits, and the others are unlit. -/
@[simp] theorem getMsbD_leftmost (byte : UInt8) (x : Nat) :
    (leftmost byte).getMsbD x = byte.toBitVec.getMsbD x := by
  have place : x + 56 + 8 - 64 = x := by omega
  simp [leftmost, BitVec.getMsbD_shiftLeft, BitVec.getMsbD_setWidth, place]

/-- A clipped strip is lit where a pixel of the byte falls, and nowhere before its column. -/
theorem Edge.getMsbD_strip_clip (column : Nat) (byte : UInt8) (x : Fin 64) :
    (Edge.clip.strip column byte).getMsbD x =
      (decide (column ≤ x) && byte.toBitVec.getMsbD (x - column)) := by
  have bound := x.isLt
  simp only [strip, BitVec.getMsbD_ushiftRight, getMsbD_leftmost]
  by_cases before : x < column
  · have : ¬ column ≤ x := by omega
    simp [before, this]
  · have : column ≤ x := by omega
    simp [before, this]

/-- A wrapped strip is lit where a pixel of the byte falls when columns are counted around. -/
theorem Edge.getMsbD_strip_wrap (column : Nat) (byte : UInt8) (x : Fin 64) :
    (Edge.wrap.strip column byte).getMsbD x =
      byte.toBitVec.getMsbD ((x + 64 - column % 64) % 64) := by
  have bound := x.isLt
  simp only [strip, BitVec.getMsbD_rotateRight, getMsbD_leftmost]
  by_cases before : x < column % 64
  · simp [before, Nat.add_comm]
  · have place : (x + 64 - column % 64) % 64 = x - column % 64 := by omega
    simp [before, place]

/-- A pixel of a placed sprite is lit exactly when a row of the sprite falls on its row and a pixel
of that row falls on it. -/
theorem Frame.lit_ofSprite (edge : Edge) (sprite : List UInt8) (left top : UInt8) (x : Fin 64)
    (y : Fin 32) :
    (Frame.ofSprite edge sprite left top).lit x y =
      match (edge.place? top.toNat y).bind fun place => sprite[place]? with
      | some byte => (edge.strip left.toNat byte).getMsbD x
      | none => false := by
  simp only [ofSprite, lit, Fin.getElem_fin, Vector.getElem_ofFn]
  split <;> simp_all

end Chip8
