import Mathlib.Data.List.FinRange
import Chip8.Terminal

/-!
# Reading what the terminal shows

Bells and frames can be told apart in the text that is written of them, and every pixel of a frame
is found in its place. Each part of the text has a reader, which takes that part from the front of a
text and returns what it was written of and what comes after it. A reader takes what is written and
nothing else (`Reads`), so the reader of a frame is put together from those of its lines and pixels,
and a text is written of at most one sequence of bells and frames.
-/

namespace Chip8

namespace Frame

/-- The pixels of a frame, each in its row and column. -/
def grid (frame : Frame) : Vector (Vector Bool 64) 32 :=
  Vector.ofFn fun y => Vector.ofFn fun x => frame.lit x y

/-- The frame with its pixels lit where a grid says so. -/
def ofGrid (grid : Vector (Vector Bool 64) 32) : Frame :=
  ⟨grid.map fun row => (BitVec.ofBoolListBE row.toList).cast row.length_toList⟩

/-- A pixel is lit exactly where the grid says so. -/
theorem lit_ofGrid (grid : Vector (Vector Bool 64) 32) (x : Fin 64) (y : Fin 32) :
    (ofGrid grid).lit x y = (grid.get y).get x := by
  show _ = grid[y][x]
  simp [ofGrid, lit, BitVec.getMsbD_ofBoolListBE]

/-- A frame is the one that is lit as its grid says. -/
theorem ofGrid_grid (frame : Frame) : ofGrid frame.grid = frame := by
  apply ext_lit
  intro x y
  rw [lit_ofGrid]
  show frame.grid[y][x] = _
  simp [grid]

/-- A grid is the one of the frame that is lit as it says. -/
theorem grid_ofGrid (grid : Vector (Vector Bool 64) 32) : (ofGrid grid).grid = grid := by
  ext y yBound x xBound
  simp only [Frame.grid, Vector.getElem_ofFn, lit_ofGrid]
  rfl

end Frame

namespace Terminal

variable {α β : Type}

/-- A reader takes from the front of a text exactly what a writer writes. -/
def Reads (read : List Char → Option (α × List Char)) (write : α → List Char) : Prop :=
  ∀ chars value rest, read chars = some (value, rest) ↔ chars = write value ++ rest

/-- What comes after a mark at the front of a text. -/
def after? (mark chars : List Char) : Option (List Char) := mark.isPrefixOf? chars

/-- A text has so much after a mark exactly when it is the mark and so much. -/
theorem after?_eq_some_iff (mark chars rest : List Char) :
    after? mark chars = some rest ↔ chars = mark ++ rest := by
  rw [after?, List.isPrefixOf?_eq_some_iff_append_eq, eq_comm]

/-- The values that a reader takes one after the other. -/
def times? (read : List Char → Option (α × List Char)) :
    (count : Nat) → List Char → Option (Vector α count × List Char)
  | 0, chars => some (#v[], chars)
  | count + 1, chars => do
    let (values, rest) ← times? read count chars
    let (value, rest) ← read rest
    return (values.push value, rest)

/-- A reader repeated takes exactly what the writer writes of the values in turn. -/
theorem Reads.times {read : List Char → Option (α × List Char)} {write : α → List Char}
    (reads : Reads read write) (count : Nat) :
    Reads (times? read count) fun values => values.toList.flatMap write := by
  induction count with
  | zero =>
    intro chars values rest
    obtain rfl : values = #v[] := Vector.eq_empty
    simp [times?]
  | succ count ih =>
    intro chars values rest
    -- The last value is read after the others, so a vector is taken apart at its end.
    obtain ⟨earlier, last, rfl⟩ : ∃ earlier last, values = Vector.push earlier last :=
      ⟨values.pop, values.back, values.push_pop_back.symm⟩
    show _ ↔ chars = (earlier.push last).toList.flatMap write ++ rest
    rw [Vector.toList_push, List.flatMap_append, List.flatMap_singleton, List.append_assoc]
    constructor
    · intro found
      obtain ⟨⟨others, middle⟩, first, found⟩ := Option.bind_eq_some_iff.mp found
      obtain ⟨⟨value, remaining⟩, second, found⟩ := Option.bind_eq_some_iff.mp found
      obtain ⟨same, rfl⟩ := Prod.mk.inj (Option.some.inj found)
      obtain ⟨rfl, rfl⟩ := Vector.push_eq_push.mp same
      rw [(ih _ _ _).mp first, (reads _ _ _).mp second]
    · intro written
      have first := (ih _ _ _).mpr written
      have second := (reads _ _ _).mpr (rfl : write last ++ rest = _)
      simp only [times?, first, second, Option.bind_eq_bind, Option.bind_some]
      rfl

/-- The pixel at the front of a text. -/
def pixel? : List Char → Option (Bool × List Char)
  | [] => none
  | char :: rest =>
    if char = pixel true then some (true, rest)
    else if char = pixel false then some (false, rest)
    else none

/-- A pixel is read from its character. -/
theorem reads_pixel : Reads pixel? fun lit => [pixel lit] := by
  intro chars lit rest
  constructor
  · intro found
    cases chars with
    | nil => cases found
    | cons char chars =>
      rw [pixel?] at found
      split at found
      case isTrue here =>
        cases found
        rw [here]
        rfl
      case isFalse =>
        split at found
        case isTrue here =>
          cases found
          rw [here]
          rfl
        case isFalse => cases found
  · rintro rfl
    cases lit with
    | true => rfl
    | false =>
      have differ : pixel false ≠ pixel true := by decide
      simp [pixel?, differ]

/-- The pixels of the line at the front of a text. -/
def line? (chars : List Char) : Option (Vector Bool 64 × List Char) := do
  let (row, rest) ← times? pixel? 64 chars
  let rest ← after? ['\n'] rest
  return (row, rest)

/-- The characters of a row of pixels, with the end of its line. -/
def rowChars (row : Vector Bool 64) : List Char := row.toList.flatMap ([pixel ·]) ++ ['\n']

/-- A line is read from the characters of its pixels and its end. -/
theorem reads_line : Reads line? rowChars := by
  intro chars row rest
  have pixels := reads_pixel.times 64
  rw [rowChars, List.append_assoc]
  constructor
  · intro found
    obtain ⟨⟨first, middle⟩, front, found⟩ := Option.bind_eq_some_iff.mp found
    obtain ⟨remaining, ended, found⟩ := Option.bind_eq_some_iff.mp found
    obtain ⟨rfl, rfl⟩ := Prod.mk.inj (Option.some.inj found)
    rw [(pixels _ _ _).mp front, (after?_eq_some_iff _ _ _).mp ended]
  · intro written
    have front := (pixels _ _ _).mpr written
    have ended := (after?_eq_some_iff _ _ _).mpr (rfl : ['\n'] ++ rest = _)
    simp only [line?, front, ended, Option.bind_eq_bind, Option.bind_some]
    rfl

/-- The frame at the front of a text. -/
def frame? (chars : List Char) : Option (Frame × List Char) := do
  let rest ← after? home chars
  let (rows, rest) ← times? line? 32 rest
  return (Frame.ofGrid rows, rest)

/-- The lines of a frame are those of its grid. -/
theorem chars_frame (shown : Frame) :
    (Output.frame shown).chars = home ++ shown.grid.toList.flatMap rowChars := by
  have same : ∀ y, line shown y = rowChars (Vector.ofFn fun x => shown.lit x y) := by
    intro y
    rw [line, rowChars, Frame.pixels, Vector.toList_ofFn, List.ofFn_eq_map, List.map_eq_flatMap]
  rw [Output.chars, Frame.grid, Vector.toList_ofFn, List.ofFn_eq_map, List.flatMap_map,
    funext same]

/-- A frame is read from its characters. -/
theorem reads_frame : Reads frame? fun shown => (Output.frame shown).chars := by
  intro chars shown rest
  have lines := reads_line.times 32
  show _ ↔ chars = (Output.frame shown).chars ++ rest
  rw [chars_frame, List.append_assoc]
  constructor
  · intro found
    obtain ⟨remaining, started, found⟩ := Option.bind_eq_some_iff.mp found
    obtain ⟨⟨grid, last⟩, rows, found⟩ := Option.bind_eq_some_iff.mp found
    obtain ⟨rfl, rfl⟩ := Prod.mk.inj (Option.some.inj found)
    rw [Frame.grid_ofGrid, (after?_eq_some_iff _ _ _).mp started, (lines _ _ _).mp rows]
  · intro written
    have started := (after?_eq_some_iff _ _ _).mpr written
    have rows := (lines _ _ _).mpr (rfl : shown.grid.toList.flatMap rowChars ++ rest = _)
    simp only [frame?, started, rows, Option.bind_eq_bind, Option.bind_some, Frame.ofGrid_grid]
    rfl

/-- The bell or frame at the front of a text. -/
def output? (chars : List Char) : Option (Output × List Char) :=
  match after? [bellChar] chars with
  | some rest => some (.bell, rest)
  | none => (frame? chars).map fun (shown, rest) => (.frame shown, rest)

/-- A bell or frame is read from its characters. -/
theorem reads_output : Reads output? Output.chars := by
  intro chars output rest
  constructor
  · intro found
    rw [output?] at found
    split at found
    case h_1 remaining rung =>
      cases found
      exact (after?_eq_some_iff _ _ _).mp rung
    case h_2 =>
      obtain ⟨⟨shown, remaining⟩, read, found⟩ := Option.map_eq_some_iff.mp found
      cases found
      exact (reads_frame _ _ _).mp read
  · intro written
    cases output with
    | bell =>
      have rung : after? [bellChar] chars = some rest := (after?_eq_some_iff _ _ _).mpr written
      rw [output?, rung]
    | frame shown =>
      -- A frame starts with the escape of its control sequence, which is no bell.
      have silent : after? [bellChar] chars = none := by
        rw [written]
        rfl
      rw [output?, silent, (reads_frame _ _ _).mpr written]
      rfl

/-- A bell or frame has some character. -/
theorem length_chars_pos (output : Output) : 0 < output.chars.length := by
  cases output with
  | bell => exact Nat.one_pos
  | frame shown => exact Nat.succ_pos _

/-- The bells and frames that a text is written of, if it is written of any. -/
def outputs? : List Char → Option (List Output)
  | [] => some []
  | char :: chars =>
    match _taken : output? (char :: chars) with
    | none => none
    | some (output, rest) => (outputs? rest).map (output :: ·)
termination_by chars => chars.length
decreasing_by
  have written := (reads_output _ _ _).mp _taken
  have some := length_chars_pos output
  rw [written, List.length_append]
  omega

/-- A text is read as bells and frames exactly when it is written of them. -/
theorem outputs?_eq_some_iff (read : List Char) (outputs : List Output) :
    outputs? read = some outputs ↔ read = chars outputs := by
  constructor
  · intro found
    fun_induction outputs? read generalizing outputs with
    | case1 =>
      cases found
      rfl
    | case2 => cases found
    | case3 char rest output remaining taken ih =>
      obtain ⟨later, read, rfl⟩ := Option.map_eq_some_iff.mp found
      rw [(reads_output _ _ _).mp taken, ih _ read]
      rfl
  · rintro rfl
    induction outputs with
    | nil => rw [chars, List.flatMap_nil, outputs?]
    | cons output outputs ih =>
      have taken : output? (chars (output :: outputs)) = some (output, chars outputs) :=
        (reads_output _ _ _).mpr rfl
      have some : 0 < (chars (output :: outputs)).length := by
        have first := length_chars_pos output
        rw [chars, List.flatMap_cons, List.length_append]
        omega
      obtain ⟨char, rest, written⟩ := List.exists_cons_of_length_pos some
      rw [written] at taken ⊢
      rw [outputs?]
      split
      case h_1 none =>
        rw [taken] at none
        cases none
      case h_2 here =>
        rw [taken] at here
        cases here
        rw [ih]
        rfl

end Terminal

end Chip8
