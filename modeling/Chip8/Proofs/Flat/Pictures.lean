import Chip8.Proofs.Flat.Safety
import Chip8.Proofs.Reading

/-!
# What is written of pixels kept as bytes

A flat interpreter keeps its pixels as bytes, row after row. They are written as characters in rows
of sixty-four, one row a line, and only a byte that is one is written as a block. So bytes other
than zero and one would be written alike; for zeros and ones, which are all that a flat interpreter
comes to, the text is that of the frame they stand for, and every event is read back from it.
-/

namespace Chip8

namespace Flat

open Terminal (home bellChar)

/-- The character of a byte: a block if it is one, and a space otherwise. -/
def glyph (byte : UInt8) : Char := if byte = 1 then '█' else ' '

/-- Pixels cut into rows of sixty-four. -/
def rows (pixels : Vector UInt8 2048) : List (List UInt8) :=
  (List.range 32).map fun y => (pixels.toList.drop (y * 64)).take 64

/-- The characters of pixels, the end of a line between two rows. -/
def drawing (pixels : Vector UInt8 2048) : List Char :=
  ['\n'].intercalate ((rows pixels).map (List.map glyph))

/-- Something that the user is to hear or see, with pixels as bytes. -/
inductive Output
  /-- The bell. -/
  | bell
  /-- A frame. -/
  | frame (pixels : Vector UInt8 2048)
  deriving DecidableEq

/-- The characters of a bell or a frame, which starts at the top left and ends its last line. -/
def Output.chars : Output → List Char
  | .bell => [bellChar]
  | .frame pixels => home ++ drawing pixels ++ ['\n']

/-- The text of a sequence of bells and frames. -/
def text (events : List Output) : String := String.ofList (events.flatMap Output.chars)

/-- A bell, or a frame whose bytes are all zero or one. -/
def Output.Binary : Output → Prop
  | .bell => True
  | .frame pixels => ∀ place (inside : place < 2048), pixels[place] = 0 ∨ pixels[place] = 1

end Flat

/-- A bell or frame with its pixels as bytes. -/
def Terminal.Output.flat : Terminal.Output → Flat.Output
  | .bell => .bell
  | .frame shown => .frame shown.cells

namespace Flat

open Terminal (home outputs?)

/-- The bells and frames of bytes that a text is written of, if it is written of any. -/
def decode? (written : String) : Option (List Output) :=
  (outputs? written.toList).map (List.map Terminal.Output.flat)

/-- The cells of a row, each in its column. -/
theorem take_drop_toList (pixels : Vector UInt8 2048) (y : Fin 32) :
    (pixels.toList.drop (y * 64)).take 64 =
      (List.finRange 64).map fun x => pixels[x.val + y.val * 64] := by
  apply List.ext_getElem
  · simp
    omega
  · intro x bound _
    simp [Nat.add_comm]

/-- The rows of pixels, each pixel in its column. -/
theorem rows_eq (pixels : Vector UInt8 2048) :
    rows pixels = (List.finRange 32).map fun y => (List.finRange 64).map fun x =>
      pixels[x.val + y.val * 64] := by
  rw [rows, ← List.map_coe_finRange_eq_range, List.map_map]
  exact List.map_congr_left fun y _ => take_drop_toList pixels y

/-- Lines joined by a mark, with the mark at the end, are lines each with the mark at its end. -/
theorem intercalate_append {α : Type} (mark : List α) (line : List α) (lines : List (List α)) :
    mark.intercalate (line :: lines) ++ mark = (line :: lines).flatMap (· ++ mark) := by
  induction lines generalizing line with
  | nil => simp
  | cons next lines ih =>
    rw [List.intercalate_cons_cons, List.append_assoc, ih, List.flatMap_cons, List.flatMap_cons,
      List.flatMap_cons, List.append_assoc, List.append_assoc]

/-- The characters of a frame are its lines, each with its end. -/
theorem chars_frame (pixels : Vector UInt8 2048) :
    (Output.frame pixels).chars =
      home ++ (rows pixels).flatMap fun row => row.map glyph ++ ['\n'] := by
  have lines : ∃ first rest, (rows pixels).map (List.map glyph) = first :: rest :=
    ⟨_, _, rfl⟩
  obtain ⟨first, rest, lines⟩ := lines
  rw [Output.chars, drawing, List.append_assoc, lines, intercalate_append, ← lines,
    List.flatMap_map]

/-- The byte of a pixel has the character of the pixel. -/
theorem glyph_ite (lit : Bool) : glyph (if lit then 1 else 0) = Terminal.pixel lit := by
  cases lit <;> rfl

/-- The rows of a frame's bytes have the characters of its rows. -/
theorem map_glyph_rows (shown : Frame) :
    (rows shown.cells).map (List.map glyph) =
      (List.finRange 32).map fun y => (shown.pixels y).map Terminal.pixel := by
  rw [rows_eq, List.map_map]
  apply List.map_congr_left
  intro y _
  rw [Function.comp_apply, Frame.pixels, List.map_map, List.map_map]
  apply List.map_congr_left
  intro x _
  rw [Function.comp_apply, Function.comp_apply, shows_cells shown x y, glyph_ite]

/-- A bell or frame is written as it is with its pixels as bytes. -/
theorem chars_flat (output : Terminal.Output) : output.flat.chars = output.chars := by
  cases output with
  | bell => rfl
  | frame shown =>
    have lines : (rows shown.cells).flatMap (fun row => row.map glyph ++ ['\n']) =
        (List.finRange 32).flatMap (Terminal.line shown) := by
      rw [← List.flatMap_map (List.map glyph) (· ++ ['\n']), map_glyph_rows,
        List.flatMap_map]
      rfl
    rw [Terminal.Output.flat, chars_frame, lines, Terminal.Output.chars]

/-- A sequence of bells and frames is written as it is with its pixels as bytes. -/
theorem text_flat (outputs : List Terminal.Output) :
    text (outputs.map Terminal.Output.flat) = Terminal.text outputs := by
  rw [text, Terminal.text, Terminal.chars, List.flatMap_map]
  simp only [chars_flat]

/-- A bell or frame has bytes that are zero or one. -/
theorem binary_flat (output : Terminal.Output) : output.flat.Binary := by
  cases output with
  | bell => trivial
  | frame shown => exact shown.cells_le_one

/-- Bytes that are zero or one are those of a bell or frame. -/
theorem Output.Binary.exists_flat {event : Output} (binary : event.Binary) :
    ∃ output : Terminal.Output, output.flat = event := by
  cases event with
  | bell => exact ⟨.bell, rfl⟩
  | frame pixels =>
    let grid : Vector (Vector Bool 64) 32 :=
      Vector.ofFn fun y => Vector.ofFn fun x => decide (pixels[x.val + y.val * 64] = 1)
    refine ⟨.frame (Frame.ofGrid grid), congrArg Output.frame ?_⟩
    refine Shows.unique (shows_cells _) ?_
    intro x y
    have lit : (Frame.ofGrid grid).lit x y = decide (pixels[x.val + y.val * 64] = 1) := by
      rw [Frame.lit_ofGrid]
      show grid[y][x] = _
      simp only [grid, Fin.getElem_fin, Vector.getElem_ofFn]
    simp only [lit, decide_eq_true_eq]
    obtain unlit | lit := binary (x + y * 64) (by omega)
    · rw [unlit, if_neg (by decide)]
    · rw [lit, if_pos rfl]

/-- Events with bytes that are zero or one are bells and frames. -/
theorem exists_map_flat {events : List Output} (binary : ∀ event ∈ events, event.Binary) :
    ∃ outputs : List Terminal.Output, outputs.map Terminal.Output.flat = events := by
  induction events with
  | nil => exact ⟨[], rfl⟩
  | cons event events ih =>
    obtain ⟨output, rfl⟩ := (binary event List.mem_cons_self).exists_flat
    obtain ⟨outputs, rfl⟩ := ih fun later member => binary later (List.mem_cons_of_mem _ member)
    exact ⟨output :: outputs, rfl⟩

/-- A text is decoded into events exactly when it is written of them and their bytes are zero or
one. -/
theorem decode?_eq_some_iff (written : String) (events : List Output) :
    decode? written = some events ↔
      (∀ event ∈ events, event.Binary) ∧ written = text events := by
  constructor
  · intro decoded
    obtain ⟨outputs, read, rfl⟩ := Option.map_eq_some_iff.mp decoded
    constructor
    · intro event member
      obtain ⟨output, -, rfl⟩ := List.mem_map.mp member
      exact binary_flat output
    · rw [text_flat, Terminal.text, ← (Terminal.outputs?_eq_some_iff _ _).mp read,
        String.ofList_toList]
  · rintro ⟨binary, rfl⟩
    obtain ⟨outputs, rfl⟩ := exists_map_flat binary
    have read : outputs? (Terminal.text outputs).toList = some outputs := by
      rw [Terminal.outputs?_eq_some_iff, Terminal.text, String.toList_ofList]
    rw [text_flat, decode?, read, Option.map_some]

/-- Characters that display pixels: cut at the ends of lines they are thirty-two lines of sixty-four
characters, each the character of its pixel. -/
structure Displays (chars : List Char) (pixels : Vector UInt8 2048) : Prop where
  height : (chars.splitOn '\n').length = 32
  width : ∀ line ∈ chars.splitOn '\n', line.length = 64
  pixel : ∀ (x : Fin 64) (y : Fin 32),
    ((chars.splitOn '\n')[y.val]?.bind fun row => row[x.val]?) =
      some (if pixels[x.val + y.val * 64] = 1 then '█' else ' ')

/-- What is drawn of pixels displays them. -/
theorem displays_drawing (pixels : Vector UInt8 2048) : Displays (drawing pixels) pixels := by
  have split : (drawing pixels).splitOn '\n' = (rows pixels).map (List.map glyph) := by
    apply List.splitOn_intercalate
    · intro line member ended
      obtain ⟨row, -, rfl⟩ := List.mem_map.mp member
      obtain ⟨byte, -, same⟩ := List.mem_map.mp ended
      unfold glyph at same
      split at same
      · revert same; decide
      · revert same; decide
    · exact List.cons_ne_nil _ _
  constructor
  case height => rw [split, rows_eq, List.length_map, List.length_map, List.length_finRange]
  case width =>
    intro line member
    rw [split, rows_eq, List.map_map] at member
    obtain ⟨y, -, rfl⟩ := List.mem_map.mp member
    simp
  case pixel =>
    intro x y
    rw [split, rows_eq]
    simp [glyph]

/-- The flat interpreters that commands lead to from power-on with settings that are accepted. -/
def Reached (flat : Flat) : Prop :=
  ∃ settings commands, settings.check = .ok () ∧ run settings commands = .ok flat

/-- A reachable interpreter laid out is one of them. -/
theorem reached_flat {interpreter : Interpreter} (reachable : interpreter.Reachable) :
    interpreter.flat.Reached := by
  obtain ⟨settings, commands, accepted, -, ran⟩ := reachable.run_flat
  exact ⟨settings, commands, accepted, ran⟩

/-- The pixels of a flat interpreter that commands lead to are zeros and ones. -/
theorem Reached.binary {flat : Flat} (reached : flat.Reached) :
    (Output.frame flat.pixels).Binary := by
  obtain ⟨settings, commands, accepted, ran⟩ := reached
  rw [run_eq accepted] at ran
  obtain rfl := Except.ok.inj ran
  exact Frame.cells_le_one _

/-- Frames of zeros and ones that are written alike are the same. -/
theorem eq_of_chars_eq {left right : Vector UInt8 2048} (first : (Output.frame left).Binary)
    (second : (Output.frame right).Binary)
    (alike : (Output.frame left).chars = (Output.frame right).chars) : left = right := by
  have same : text [.frame left] = text [.frame right] := by
    rw [text, text, List.flatMap_singleton, List.flatMap_singleton, alike]
  have here := (decode?_eq_some_iff _ [.frame left]).mpr ⟨by simpa using first, rfl⟩
  have there := (decode?_eq_some_iff _ [.frame right]).mpr ⟨by simpa using second, rfl⟩
  rw [same, there] at here
  cases here
  rfl

/-- What the user hears and sees can be told from the text. A text is decoded into events exactly
when it is written of them and their pixels are zeros and ones; that is what is written of bells and
frames. A frame is written as thirty-two lines of sixty-four characters after the cursor goes to the
top left, with every pixel in its place. The pixels that a flat interpreter comes to, which may be
those of any reachable interpreter, are zeros and ones, so no two that differ are written alike. -/
theorem text_uniquely_decodable :
    (∀ written events, decode? written = some events ↔
      (∀ event ∈ events, event.Binary) ∧ written = text events) ∧
    (∀ outputs : List Terminal.Output,
      text (outputs.map Terminal.Output.flat) = Terminal.text outputs) ∧
    (∀ pixels, (Output.frame pixels).chars = home ++ drawing pixels ++ ['\n'] ∧
      Displays (drawing pixels) pixels) ∧
    (∀ interpreter : Interpreter, interpreter.Reachable → interpreter.flat.Reached) ∧
    (∀ flat : Flat, flat.Reached → (Output.frame flat.pixels).Binary) ∧
    (∀ left right : Flat, left.Reached → right.Reached → left.pixels ≠ right.pixels →
      (Output.frame left.pixels).chars ≠ (Output.frame right.pixels).chars) := by
  refine ⟨decode?_eq_some_iff, text_flat, fun pixels => ⟨rfl, displays_drawing pixels⟩,
    fun _ => reached_flat, fun _ reached => reached.binary, ?_⟩
  intro left right first second differ alike
  exact differ (eq_of_chars_eq first.binary second.binary alike)

/-- The interpreter that has drawn the glyph of zero. -/
def sketched : Interpreter :=
  (Interpreter.powerOn .standard).applyAll [.load [0xA0, 0x50, 0xD0, 0x05], .step 0, .step 0]

/-- Bells around that glyph and the blank frame are read back from their text, in which the two
frames differ. -/
theorem uniquely_decodable_glyph :
    sketched.flat.Reached ∧ (Interpreter.powerOn .standard).flat.Reached ∧
      sketched.flat.pixels[0] = 1 ∧ (Interpreter.powerOn .standard).flat.pixels[0] = 0 ∧
      decode? (text [.bell, .frame sketched.flat.pixels, .bell,
          .frame (Interpreter.powerOn .standard).flat.pixels]) =
        some [.bell, .frame sketched.flat.pixels, .bell,
          .frame (Interpreter.powerOn .standard).flat.pixels] ∧
      (Output.frame sketched.flat.pixels).chars ≠
        (Output.frame (Interpreter.powerOn .standard).flat.pixels).chars := by
  have lit : sketched.machine.frame.lit 0 0 = true := by decide +kernel
  have one : sketched.flat.pixels[0] = 1 :=
    (shows_cells sketched.machine.frame 0 0).trans (if_pos lit)
  have unlit : ¬ (Interpreter.powerOn .standard).machine.frame.lit 0 0 = true := by
    decide +kernel
  have zero : (Interpreter.powerOn .standard).flat.pixels[0] = 0 :=
    (shows_cells (Interpreter.powerOn .standard).machine.frame 0 0).trans (if_neg unlit)
  obtain ⟨decodes, -, -, reached, zeroOrOne, differ⟩ := text_uniquely_decodable
  have drawn := reached sketched (Interpreter.Reachable.standard.applyAll _)
  have blank := reached (Interpreter.powerOn .standard) .standard
  refine ⟨drawn, blank, one, zero, ?_, differ _ _ drawn blank ?_⟩
  · apply (decodes _ _).mpr
    refine ⟨?_, rfl⟩
    simp only [List.mem_cons, List.not_mem_nil, or_false, forall_eq_or_imp, forall_eq]
    exact ⟨trivial, zeroOrOne _ drawn, trivial, zeroOrOne _ blank⟩
  · intro same
    have first : sketched.flat.pixels[0] =
        (Interpreter.powerOn .standard).flat.pixels[0] := by rw [same]
    rw [one, zero] at first
    revert first
    decide

end Flat

end Chip8
