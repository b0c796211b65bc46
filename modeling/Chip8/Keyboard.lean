import Chip8.Interpreter.Command
import Chip8.Text.Blank

/-!
# The keyboard

Keys are tapped by typing: every hexadecimal digit of the lines that came in since the last update
puts its key down until the next update. Blanks are passed over, and any other character is noted
in the journal and passed over too.
-/

namespace Chip8

/-- What a typed character asks for. -/
inductive Typed
  /-- To tap a key. -/
  | tap (key : Key)
  /-- Nothing that is known. -/
  | unknown (char : Char)
  deriving DecidableEq, Repr

namespace Typed

/-- What a character asks for; a blank asks for nothing. -/
def ofChar? (char : Char) : Option Typed :=
  if Text.isBlank char then none
  else some (match Text.hexValue? char with
    | some key => .tap key
    | none => .unknown char)

/-- What a line asks for, in order. -/
def ofLine (line : String) : List Typed := line.toList.filterMap ofChar?

/-- The key that is tapped. -/
def key? : Typed → Option Key
  | .tap key => some key
  | .unknown _ => none

/-- What is noted down about an unknown character. -/
def record? : Typed → Option Record
  | .tap _ => none
  | .unknown char => some (.notAKey char)

end Typed

/-- The lines that have come in, and the keys that the last update put down. -/
structure Keyboard where
  /-- The lines that no update has looked at, the oldest first. -/
  lines : List String
  /-- The keys that the last update put down, as often as they were typed. -/
  held : List Key
  deriving DecidableEq, Repr

namespace Keyboard

/-- The keyboard before anything is typed. -/
def idle : Keyboard := ⟨[], []⟩

/-- The keyboard after a line has come in. -/
def type (keyboard : Keyboard) (line : String) : Keyboard :=
  { keyboard with lines := keyboard.lines ++ [line] }

/-- What the lines ask for that no update has looked at. -/
def typed (keyboard : Keyboard) : List Typed := keyboard.lines.flatMap Typed.ofLine

/-- The keys that the next update puts down. -/
def taps (keyboard : Keyboard) : List Key := keyboard.typed.filterMap Typed.key?

/-- The pad with every key of a list put down or up. -/
def setAll (keys : Keys) (changed : List Key) (isDown : Bool) : Keys :=
  changed.foldl (fun keys key => keys.set key isDown) keys

/-- Lets go of the keys that the last update put down, and puts down those typed since. -/
def update (keyboard : Keyboard) (interpreter : Interpreter) : Keyboard × Interpreter :=
  let released := setAll interpreter.keys keyboard.held false
  (⟨[], keyboard.taps⟩, { interpreter with keys := setAll released keyboard.taps true })

/-- What an update notes down: the unknown characters, and then the keys that it puts down. -/
def records (keyboard : Keyboard) : List Record :=
  keyboard.typed.filterMap Typed.record? ++ keyboard.taps.map .keyDown

/-- A key that is not in the list stays as it was. -/
theorem isDown_setAll_of_not_mem (keys : Keys) (changed : List Key) (isDown : Bool) (key : Key)
    (other : key ∉ changed) : (setAll keys changed isDown).isDown key = keys.isDown key := by
  induction changed generalizing keys with
  | nil => rfl
  | cons first rest ih =>
    rw [List.mem_cons, not_or] at other
    rw [setAll, List.foldl_cons, ← setAll, ih _ other.2, Keys.isDown_set, if_neg other.1]

/-- A key of the list is as it was set, however often it occurs. -/
theorem isDown_setAll_of_mem (keys : Keys) (changed : List Key) (isDown : Bool) (key : Key)
    (member : key ∈ changed) : (setAll keys changed isDown).isDown key = isDown := by
  induction changed generalizing keys with
  | nil => cases member
  | cons first rest ih =>
    rw [setAll, List.foldl_cons, ← setAll]
    by_cases later : key ∈ rest
    · exact ih _ later
    · have here : key = first := by simpa [later] using member
      rw [isDown_setAll_of_not_mem _ _ _ _ later, Keys.isDown_set, if_pos here]

end Keyboard

end Chip8
