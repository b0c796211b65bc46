import Chip8.Frame

/-!
# The terminal

What a session shows to its user is a sequence of bells and frames. Each of them is written as
text: a bell is the control character, and a frame is drawn over the one before it, a line of block
characters for each row.
-/

namespace Chip8.Terminal

/-- Something that the user is to hear or see. -/
inductive Output
  /-- The bell. -/
  | bell
  /-- A frame. -/
  | frame (shown : Frame)
  deriving DecidableEq

/-- The control character that rings the bell. -/
def bellChar : Char := '\x07'

/-- The control sequence that moves the cursor to the top left. -/
def home : List Char := ['\x1b', '[', 'H']

/-- The character of a pixel. -/
def pixel (lit : Bool) : Char := if lit then '█' else ' '

/-- The line of a row, with its end. -/
def line (frame : Frame) (y : Fin 32) : List Char := (frame.pixels y).map pixel ++ ['\n']

/-- The characters of a bell or a frame. -/
def Output.chars : Output → List Char
  | .bell => [bellChar]
  | .frame shown => home ++ (List.finRange 32).flatMap (line shown)

/-- The characters of a sequence of bells and frames. -/
def chars (outputs : List Output) : List Char := outputs.flatMap Output.chars

/-- The text of a sequence of bells and frames. -/
def text (outputs : List Output) : String := String.ofList (chars outputs)

end Chip8.Terminal
