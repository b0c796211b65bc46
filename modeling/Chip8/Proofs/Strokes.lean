import Mathlib.Algebra.BigOperators.Group.List.Basic
import Chip8.Proofs.Drawing
import Chip8.Proofs.Toggling

/-!
# Strokes on a frame

A draw puts a sprite on the frame at a position, and with these its stroke is given: whichever
machine makes it, and wherever in memory the sprite lies, the frame is toggled by the sprite alone
(`Stroke.Ready.frame_of_perform`). So strokes, one after the other, add up in the group of frames
(`Stroke.draws_iff`), where the order does not matter and everything undoes itself. What is not
symmetric is the flag: of two equal draws it tells the first whether a pixel of the sprite was lit,
and the second whether one was not.
-/

namespace Chip8

/-- What a draw puts on the frame. -/
structure Stroke where
  /-- The rows of the sprite, from top to bottom. -/
  sprite : List UInt8
  /-- There are no more rows than a draw can ask for. -/
  short : sprite.length ≤ 15
  /-- The column of the corner. -/
  left : UInt8
  /-- The row of the corner. -/
  top : UInt8

namespace Stroke

/-- The frame with the stroke alone. -/
def mask (edge : Edge) (stroke : Stroke) : Frame :=
  .ofSprite edge stroke.sprite stroke.left stroke.top

/-- A draw makes the stroke when it is performed: the sprite is at the index, and the position in
the registers that the draw names. -/
structure Ready (stroke : Stroke) (machine : Machine) (x y : Register) (height : Fin 16) :
    Prop where
  /-- The sprite lies in memory. -/
  inside : machine.index.toNat + height ≤ 4096
  sprite : (machine.sprite height inside).toList = stroke.sprite
  left : machine.register x = stroke.left
  top : machine.register y = stroke.top

/-- Strokes are made one after the other, each by some machine that has the frame as the one before
left it, and the last one leaves a frame. -/
def Draws (edge : Edge) : List Stroke → Frame → Frame → Prop
  | [], frame, drawn => drawn = frame
  | stroke :: rest, frame, drawn =>
    ∃ machine inputs x y height next, stroke.Ready machine x y height ∧ machine.frame = frame ∧
      inputs.edge = edge ∧ machine.perform inputs (.draw x y height) = .ok next ∧
      Draws edge rest next.frame drawn

variable {stroke : Stroke} {machine : Machine} {x y : Register} {height : Fin 16}

/-- A draw that makes a stroke is performed. -/
theorem Ready.exists_perform (ready : stroke.Ready machine x y height) (inputs : Inputs) :
    ∃ next, machine.perform inputs (.draw x y height) = .ok next :=
  ⟨_, machine.perform_draw inputs x y height ready.inside⟩

/-- It adds the stroke to the frame, whatever else the machine may be. -/
theorem Ready.frame_of_perform (ready : stroke.Ready machine x y height) {inputs : Inputs}
    {next : Machine} (performed : machine.perform inputs (.draw x y height) = .ok next) :
    next.frame = machine.frame + stroke.mask inputs.edge := by
  rw [machine.perform_draw inputs x y height ready.inside, ready.sprite, ready.left,
    ready.top] at performed
  obtain rfl := Except.ok.inj performed
  rfl

/-- A machine with a frame, the sprite at the start of memory, and the position in its registers. -/
def easel (stroke : Stroke) (frame : Frame) : Machine :=
  { Machine.initial with
    registers := (Vector.replicate 16 stroke.left).set Machine.flag stroke.top
    memory := ⟨overwrite 0 stroke.sprite Memory.initial.bytes⟩
    frame }

/-- Every stroke can be made on every frame. -/
theorem ready_easel (stroke : Stroke) (frame : Frame) :
    stroke.Ready (stroke.easel frame) Machine.offset Machine.flag
      ⟨stroke.sprite.length, Nat.lt_succ_of_le stroke.short⟩ where
  inside := by
    have short := stroke.short
    show 0 + stroke.sprite.length ≤ 4096
    omega
  sprite := by
    have short := stroke.short
    apply List.ext_getElem
    · rw [Vector.length_toList]
    · intro row _ low
      rw [Vector.getElem_toList, Machine.getElem_sprite _ _ _ _ low]
      have here : 0 + row < 4096 := by omega
      show (overwrite 0 stroke.sprite Memory.initial.bytes)[0 + row] = stroke.sprite[row]
      rw [getElem_overwrite, if_pos (Nat.zero_le _)]
      simp [low]
  left := by simp [easel, Machine.register, Machine.offset, Machine.flag]
  top := by simp [easel, Machine.register, Machine.flag]

/-- Strokes lead from one frame to another exactly if the other is the sum of it and the strokes. -/
theorem draws_iff (edge : Edge) (strokes : List Stroke) (frame drawn : Frame) :
    Draws edge strokes frame drawn ↔ drawn = frame + (strokes.map (mask edge)).sum := by
  induction strokes generalizing frame with
  | nil =>
    rw [List.map_nil, List.sum_nil, add_zero]
    rfl
  | cons stroke rest ih =>
    rw [List.map_cons, List.sum_cons, ← add_assoc]
    constructor
    · rintro ⟨machine, inputs, x, y, height, next, ready, rfl, rfl, performed, drawn⟩
      rw [← ready.frame_of_perform performed]
      exact (ih next.frame).mp drawn
    · intro same
      have ready := stroke.ready_easel frame
      obtain ⟨next, performed⟩ := ready.exists_perform ⟨.released, edge, 0⟩
      refine ⟨_, _, _, _, _, next, ready, rfl, rfl, performed, ?_⟩
      rw [ih, ready.frame_of_perform performed]
      exact same

end Stroke

namespace Machine

/-- A sprite that is drawn raises the flag exactly if it meets lit pixels. -/
theorem register_flag_stamp (machine : Machine) (sprite : Frame) :
    (machine.stamp sprite).register flag = 1 ↔ machine.frame.meets sprite = true := by
  rw [stamp, register_setRegister, if_pos rfl]
  cases machine.frame.meets sprite <;> decide

/-- Drawn twice, a sprite in memory leaves the frame as it was, unless the flag register names its
position. The first draw is flagged if the sprite covers a pixel that was lit, and the second if it
covers one that was not. -/
theorem perform_draw_twice (machine : Machine) {inputs again : Inputs}
    (same : again.edge = inputs.edge) {x y : Register} (plainX : x ≠ flag) (plainY : y ≠ flag)
    (height : Fin 16) (inside : machine.index.toNat + height ≤ 4096) :
    ∃ first second, machine.perform inputs (.draw x y height) = .ok first ∧
      first.perform again (.draw x y height) = .ok second ∧
      second.frame = machine.frame ∧
      (first.register flag = 1 ↔ ∃ dot column row,
        machine.Targets inputs.edge x y height dot column row ∧
          machine.frame.lit column row = true) ∧
      (second.register flag = 1 ↔ ∃ dot column row,
        machine.Targets inputs.edge x y height dot column row ∧
          machine.frame.lit column row = false) := by
  have lights := machine.lit_ofSprite_iff_targets inputs.edge x y height inside
  have drawn := machine.perform_draw inputs x y height inside
  generalize placed : Frame.ofSprite inputs.edge (machine.sprite height inside).toList
    (machine.register x) (machine.register y) = mask at lights drawn
  -- The first draw leaves the sprite and its position, so the second puts it in the same place.
  have redrawn : (machine.advance.stamp mask).perform again (.draw x y height) =
      .ok ((machine.advance.stamp mask).advance.stamp mask) := by
    have left : (machine.advance.stamp mask).register x = machine.register x := by
      rw [stamp, register_setRegister, if_neg plainX]
      rfl
    have top : (machine.advance.stamp mask).register y = machine.register y := by
      rw [stamp, register_setRegister, if_neg plainY]
      rfl
    have sprite : (machine.advance.stamp mask).sprite height inside =
      machine.sprite height inside := rfl
    have performed := (machine.advance.stamp mask).perform_draw again x y height inside
    rw [left, top, sprite, same, placed] at performed
    exact performed
  refine ⟨_, _, drawn, redrawn, ?_, ?_, ?_⟩
  · show machine.frame + mask + mask = machine.frame
    rw [add_assoc, Frame.add_self, add_zero]
  · rw [register_flag_stamp, Frame.meets_iff]
    constructor
    · rintro ⟨column, row, lit, masked⟩
      obtain ⟨dot, targets⟩ := (lights column row).mp masked
      exact ⟨dot, column, row, targets, lit⟩
    · rintro ⟨dot, column, row, targets, lit⟩
      exact ⟨column, row, lit, (lights column row).mpr ⟨dot, targets⟩⟩
  · rw [register_flag_stamp, Frame.meets_iff]
    have toggled (column : Fin 64) (row : Fin 32) :
        (machine.advance.stamp mask).advance.frame.lit column row =
          (machine.frame.lit column row ^^ mask.lit column row) := Frame.lit_toggle _ _ _ _
    constructor
    · rintro ⟨column, row, lit, masked⟩
      obtain ⟨dot, targets⟩ := (lights column row).mp masked
      rw [toggled, masked, Bool.xor_true, Bool.not_eq_true'] at lit
      exact ⟨dot, column, row, targets, lit⟩
    · rintro ⟨dot, column, row, targets, dark⟩
      have masked := (lights column row).mpr ⟨dot, targets⟩
      refine ⟨column, row, ?_, masked⟩
      rw [toggled, masked, dark]
      rfl

/-- Draws commute and cancel. Any strokes can be made on any frame, and lead to one frame only, in
whatever order they are made; made twice, they lead back to the frame they began with. And where the
flag register does not name the position, a machine that draws the sprite at its index twice has its
frame back, flagged the first time if the sprite covers a pixel that was lit at the beginning, and
the second time if it covers one that was not; so one of the two is flagged if it covers any. The
machines may be anywhere, at the end of a word as well, where the program counter wraps around and a
draw on checked sums breaks (`Interpreter.perform_flat_eq_ok_iff`). -/
theorem draws_commute_and_cancel (edge : Edge) :
    (∀ (strokes : List Stroke) (frame : Frame),
      (∃ drawn, ∀ permuted : List Stroke, permuted.Perm strokes →
        ∀ other, Stroke.Draws edge permuted frame other ↔ other = drawn) ∧
      ∀ other, Stroke.Draws edge (strokes ++ strokes) frame other ↔ other = frame) ∧
    ∀ (machine : Machine) (inputs again : Inputs), inputs.edge = edge → again.edge = edge →
      ∀ x y, x ≠ flag → y ≠ flag → ∀ height : Fin 16, machine.index.toNat + height ≤ 4096 →
        ∃ first second, machine.perform inputs (.draw x y height) = .ok first ∧
          first.perform again (.draw x y height) = .ok second ∧
          second.frame = machine.frame ∧
          (first.register flag = 1 ↔ ∃ dot column row,
            machine.Targets edge x y height dot column row ∧
              machine.frame.lit column row = true) ∧
          (second.register flag = 1 ↔ ∃ dot column row,
            machine.Targets edge x y height dot column row ∧
              machine.frame.lit column row = false) ∧
          ((∃ dot column row, machine.Targets edge x y height dot column row) →
            first.register flag = 1 ∨ second.register flag = 1) := by
  constructor
  · intro strokes frame
    constructor
    · refine ⟨frame + (strokes.map (Stroke.mask edge)).sum, ?_⟩
      intro permuted order other
      rw [Stroke.draws_iff, (order.map _).sum_eq]
    · intro other
      rw [Stroke.draws_iff, List.map_append, List.sum_append, Frame.add_self, add_zero]
  · rintro machine inputs again rfl same x y plainX plainY height inside
    obtain ⟨first, second, drawn, redrawn, restored, wasLit, wasDark⟩ :=
      machine.perform_draw_twice same plainX plainY height inside
    refine ⟨first, second, drawn, redrawn, restored, wasLit, wasDark, ?_⟩
    rintro ⟨dot, column, row, targets⟩
    cases before : machine.frame.lit column row with
    | true => exact .inl (wasLit.mpr ⟨dot, column, row, targets, before⟩)
    | false => exact .inr (wasDark.mpr ⟨dot, column, row, targets, before⟩)

/-- The first glyph, drawn twice in the corner of a blank frame, leaves it blank, and the second
time there is a collision. -/
theorem draws_commute_and_cancel_glyph :
    offset ≠ flag ∧ (0x50 : UInt16).toNat + 5 ≤ 4096 ∧
      ∃ first second,
        { initial with index := 0x50 }.perform ⟨.released, .clip, 0⟩
          (.draw offset offset ⟨5, by decide⟩) = .ok first ∧
        first.perform ⟨.released, .clip, 0⟩ (.draw offset offset ⟨5, by decide⟩) = .ok second ∧
        second.frame = .blank ∧ second.register flag = 1 := by
  have plain : offset ≠ flag := by decide
  have inside : (0x50 : UInt16).toNat + 5 ≤ 4096 := by decide
  have row : initial.memory.bytes[(80 : Nat)]? = some 0xF0 := by
    rw [Vector.getElem?_eq_getElem (by decide)]
    exact congrArg some (Memory.getElem_initial 80 (by decide))
  obtain ⟨-, twice⟩ := draws_commute_and_cancel .clip
  obtain ⟨first, second, drawn, redrawn, restored, -, dark, -⟩ :=
    twice { initial with index := 0x50 } ⟨.released, .clip, 0⟩ ⟨.released, .clip, 0⟩ rfl rfl
      offset offset plain plain ⟨5, by decide⟩ inside
  refine ⟨plain, inside, first, second, drawn, redrawn, restored, dark.mpr ?_⟩
  exact ⟨⟨0, 0⟩, ⟨0, by decide⟩, ⟨0, by decide⟩,
    ⟨by decide, by decide, ⟨0xF0, row, by decide⟩, by decide⟩, Frame.lit_blank _ _⟩

end Machine

end Chip8
