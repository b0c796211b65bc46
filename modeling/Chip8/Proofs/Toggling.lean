import Mathlib.Algebra.Group.Basic
import Chip8.Frame

/-!
# Frames as a group

Toggling one frame by the lit pixels of another is exclusive or, pixel by pixel. So frames are a
commutative group under toggling, in which the blank frame changes nothing and every frame undoes
itself.
-/

namespace Chip8.Frame

instance : Zero Frame := ⟨blank⟩

instance : Add Frame := ⟨toggle⟩

instance : Neg Frame := ⟨id⟩

/-- No pixel of the zero frame is lit. -/
@[simp] theorem lit_zero (x : Fin 64) (y : Fin 32) : (0 : Frame).lit x y = false := lit_blank x y

/-- A pixel of a sum is lit exactly if it is lit in one of the two frames and not in the other. -/
@[simp] theorem lit_add (left right : Frame) (x : Fin 64) (y : Fin 32) :
    (left + right).lit x y = (left.lit x y ^^ right.lit x y) := lit_toggle left right x y

/-- Every frame undoes itself. -/
theorem add_self (frame : Frame) : frame + frame = 0 := by
  apply ext_lit
  simp

/-- Frames are a commutative group under toggling. -/
instance : AddCommGroup Frame where
  add_assoc _ _ _ := ext_lit (by simp)
  zero_add _ := ext_lit (by simp)
  add_zero _ := ext_lit (by simp)
  neg_add_cancel := add_self
  add_comm _ _ := ext_lit (by simp [Bool.xor_comm])
  nsmul := nsmulRec
  zsmul := zsmulRec

/-- Different frames toggle a frame differently. -/
theorem toggle_right_inj (frame left right : Frame) :
    frame.toggle left = frame.toggle right ↔ left = right :=
  add_right_inj frame

end Chip8.Frame
