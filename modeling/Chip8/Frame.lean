/-!
# Frames

The display has 64 columns and 32 rows of pixels, each lit or not. A frame keeps a row as one word,
its leftmost pixel the highest bit. Drawing is exclusive or with another frame: a pixel lit in both
goes out, and both being lit anywhere is a collision.
-/

namespace Chip8

/-- The pixels of the display. -/
structure Frame where
  /-- The rows from top to bottom. -/
  rows : Vector (BitVec 64) 32
  deriving DecidableEq, Repr

namespace Frame

/-- The number of columns. -/
def width : Nat := 64

/-- The number of rows. -/
def height : Nat := 32

/-- The frame without a lit pixel. -/
def blank : Frame := ⟨Vector.replicate 32 0⟩

/-- Whether the pixel in a column and row is lit. -/
def lit (frame : Frame) (x : Fin 64) (y : Fin 32) : Bool := frame.rows[y].getMsbD x

/-- The frame with the pixels toggled that are lit in a mask. -/
def toggle (frame mask : Frame) : Frame :=
  ⟨Vector.zipWith (fun row change => row ^^^ change) frame.rows mask.rows⟩

/-- The pixels lit in both frames. -/
def common (frame mask : Frame) : Frame :=
  ⟨Vector.zipWith (fun row change => row &&& change) frame.rows mask.rows⟩

/-- Whether some pixel is lit in both frames. -/
def meets (frame mask : Frame) : Bool := frame.common mask ≠ blank

/-- The pixels of a row from left to right. -/
def pixels (frame : Frame) (y : Fin 32) : List Bool :=
  (List.finRange 64).map fun x => frame.lit x y

/-- The number of lit pixels. -/
def litCount (frame : Frame) : Nat :=
  (List.finRange 32).foldl (fun count y => count + (frame.pixels y).count true) 0

/-- Two frames are the same when they agree on every pixel. -/
theorem ext_lit {left right : Frame} (same : ∀ x y, left.lit x y = right.lit x y) :
    left = right := by
  obtain ⟨left⟩ := left
  obtain ⟨right⟩ := right
  congr 1
  apply Vector.ext
  intro y inside
  apply BitVec.eq_of_getMsbD_eq
  intro x bound
  exact same ⟨x, bound⟩ ⟨y, inside⟩

/-- No pixel of the blank frame is lit. -/
@[simp] theorem lit_blank (x : Fin 64) (y : Fin 32) : blank.lit x y = false := by
  simp [blank, lit]

/-- A pixel is toggled exactly when the mask lights it. -/
@[simp] theorem lit_toggle (frame mask : Frame) (x : Fin 64) (y : Fin 32) :
    (frame.toggle mask).lit x y = (frame.lit x y ^^ mask.lit x y) := by
  simp [toggle, lit]

/-- A pixel is common to two frames when it is lit in both. -/
@[simp] theorem lit_common (frame mask : Frame) (x : Fin 64) (y : Fin 32) :
    (frame.common mask).lit x y = (frame.lit x y && mask.lit x y) := by
  simp [common, lit]

/-- Two frames meet exactly when some pixel is lit in both. -/
theorem meets_iff (frame mask : Frame) :
    frame.meets mask = true ↔ ∃ x y, frame.lit x y = true ∧ mask.lit x y = true := by
  simp only [meets, ne_eq, decide_not, Bool.not_eq_true', decide_eq_false_iff_not]
  constructor
  · intro differ
    apply Classical.byContradiction
    intro none
    apply differ
    apply ext_lit
    intro x y
    simp only [not_exists, not_and, Bool.not_eq_true] at none
    cases here : frame.lit x y with
    | false => simp [here]
    | true => simp [none x y here]
  · rintro ⟨x, y, here, there⟩ same
    have := congrArg (fun frame => frame.lit x y) same
    simp [here, there] at this

end Frame

end Chip8
