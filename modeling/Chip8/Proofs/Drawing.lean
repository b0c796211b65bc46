import Chip8.Proofs.Perform
import Chip8.Proofs.Sprite

/-!
# Drawing pixel by pixel

A draw is exclusive or with the frame of the placed sprite. Pixel by pixel that means: a dot of the
sprite toggles its target, no other dot has the same target, and a target that was lit before is a
collision. The position is read before the flag is written, so the flag register may name it.
-/

namespace Chip8.Machine

/-- The dot of the sprite at the index falls on a pixel when the corner of the sprite is at the
position in two registers. -/
def Targets (machine : Machine) (edge : Edge) (x y : Register) (height : Fin 16) (dot : Dot)
    (column : Fin 64) (row : Fin 32) : Prop :=
  dot.row < height ∧ dot.bit < 8 ∧
    (∃ byte, machine.memory.bytes[machine.index.toNat + dot.row]? = some byte ∧
      byte.toNat.testBit (7 - dot.bit) = true) ∧
    edge.target? (machine.register x) (machine.register y) dot = some (column, row)

/-- What a draw leaves, said of each pixel and of each part of the machine. -/
structure Drawn (machine : Machine) (edge : Edge) (x y : Register) (height : Fin 16)
    (next : Machine) : Prop where
  /-- No pixel is the target of two dots. -/
  unique : ∀ column row first second,
    machine.Targets edge x y height first column row →
    machine.Targets edge x y height second column row → first = second
  /-- The target of a dot is toggled. -/
  toggled : ∀ column row, (∃ dot, machine.Targets edge x y height dot column row) →
    next.frame.lit column row = !machine.frame.lit column row
  /-- Any other pixel is left alone. -/
  kept : ∀ column row, (¬ ∃ dot, machine.Targets edge x y height dot column row) →
    next.frame.lit column row = machine.frame.lit column row
  /-- The flag is one if a target was lit before. -/
  collision : (∃ column row dot, machine.Targets edge x y height dot column row ∧
    machine.frame.lit column row = true) → next.register flag = 1
  /-- The flag is zero if none was. -/
  clear : (¬ ∃ column row dot, machine.Targets edge x y height dot column row ∧
    machine.frame.lit column row = true) → next.register flag = 0
  /-- The other registers are left alone. -/
  registers : ∀ other, other ≠ flag → next.register other = machine.register other
  index : next.index = machine.index
  memory : next.memory = machine.memory
  stack : next.stack = machine.stack
  delay : next.delay = machine.delay
  sound : next.sound = machine.sound
  awaiting : next.awaiting = machine.awaiting
  /-- The host has yet to take the frame. -/
  redraw : next.redraw = true
  /-- The machine is at the next instruction. -/
  pc : next.pc = machine.pc + 2
  /-- That is two addresses on, unless the program counter wraps around. -/
  counter : machine.pc.toNat < 0xFFFE → next.pc.toNat = machine.pc.toNat + 2

/-- The bytes that a draw reads, the sprite from top to bottom. -/
def sprite (machine : Machine) (height : Fin 16)
    (inside : machine.index.toNat + height ≤ 4096) : Vector UInt8 height :=
  machine.memory.range machine.index.toNat height inside

/-- A row of the sprite is the byte at its place from the index on. -/
theorem getElem_sprite (machine : Machine) (height : Fin 16)
    (inside : machine.index.toNat + height ≤ 4096) (row : Nat) (low : row < height) :
    (machine.sprite height inside)[row] = machine.memory.bytes[machine.index.toNat + row] :=
  machine.memory.getElem_range _ _ inside row low

/-- A dot of the sprite in memory is a set bit of the byte in its row. -/
theorem mem_dots_sprite (machine : Machine) (height : Fin 16)
    (inside : machine.index.toNat + height ≤ 4096) (dot : Dot) :
    dot ∈ dots (machine.sprite height inside).toList ↔
      dot.row < height ∧ dot.bit < 8 ∧
        ∃ byte, machine.memory.bytes[machine.index.toNat + dot.row]? = some byte ∧
          byte.toNat.testBit (7 - dot.bit) = true := by
  rw [mem_dots]
  constructor
  · rintro ⟨byte, found, small, set⟩
    obtain ⟨low, same⟩ := List.getElem?_eq_some_iff.mp found
    rw [Vector.length_toList] at low
    refine ⟨low, small, byte, ?_, set⟩
    rw [Vector.getElem_toList, getElem_sprite _ _ _ _ low] at same
    rw [Vector.getElem?_eq_getElem (by omega), same]
  · rintro ⟨low, small, byte, found, set⟩
    refine ⟨byte, ?_, small, set⟩
    rw [Vector.getElem?_eq_getElem (by omega), Option.some.injEq] at found
    rw [List.getElem?_eq_getElem (by rwa [Vector.length_toList]), Vector.getElem_toList,
      getElem_sprite _ _ _ _ low, found]

/-- A sprite in memory lights exactly the targets of its dots. -/
theorem lit_ofSprite_iff_targets (machine : Machine) (edge : Edge) (x y : Register)
    (height : Fin 16) (inside : machine.index.toNat + height ≤ 4096) (column : Fin 64)
    (row : Fin 32) :
    (Frame.ofSprite edge (machine.sprite height inside).toList (machine.register x)
        (machine.register y)).lit column row = true ↔
      ∃ dot, machine.Targets edge x y height dot column row := by
  have short : (machine.sprite height inside).toList.length ≤ 32 := by
    rw [Vector.length_toList]
    omega
  rw [Frame.lit_ofSprite_iff_target _ _ short]
  constructor
  · rintro ⟨dot, member, falls⟩
    obtain ⟨low, small, set⟩ := (machine.mem_dots_sprite height inside dot).mp member
    exact ⟨dot, low, small, set, falls⟩
  · rintro ⟨dot, low, small, set, falls⟩
    exact ⟨dot, (machine.mem_dots_sprite height inside dot).mpr ⟨low, small, set⟩, falls⟩

/-- A draw whose sprite lies in memory stamps it on the frame. -/
theorem perform_draw (machine : Machine) (inputs : Inputs) (x y : Register) (height : Fin 16)
    (inside : machine.index.toNat + height ≤ 4096) :
    machine.perform inputs (.draw x y height) =
      .ok (machine.advance.stamp (.ofSprite inputs.edge (machine.sprite height inside).toList
        (machine.register x) (machine.register y))) := by
  rw [perform, Memory.read_of_inside _ inside]
  rfl

/-- A draw whose sprite lies in memory always succeeds, and what it leaves is as said pixel by
pixel. It is performed from the last two addresses too, where nothing is fetched: the program
counter wraps around there and the draw on checked sums breaks, which does the same as this one from
anywhere else (`Interpreter.perform_flat_eq_ok_iff`). -/
theorem perform_draw_pixelwise (machine : Machine) (inputs : Inputs) (x y : Register)
    (height : Fin 16) (inside : machine.index.toNat + height ≤ 4096) :
    ∃ next, machine.perform inputs (.draw x y height) = .ok next ∧
      machine.Drawn inputs.edge x y height next := by
  have lights := machine.lit_ofSprite_iff_targets inputs.edge x y height inside
  refine ⟨_, machine.perform_draw inputs x y height inside, ?_⟩
  generalize Frame.ofSprite inputs.edge (machine.sprite height inside).toList (machine.register x)
    (machine.register y) = mask at lights
  have frame : (machine.advance.stamp mask).frame = machine.frame.toggle mask := rfl
  have meets : (∃ column row dot, machine.Targets inputs.edge x y height dot column row ∧
      machine.frame.lit column row = true) ↔ machine.frame.meets mask = true := by
    rw [Frame.meets_iff]
    constructor
    · rintro ⟨column, row, dot, targets, lit⟩
      exact ⟨column, row, lit, (lights column row).mpr ⟨dot, targets⟩⟩
    · rintro ⟨column, row, lit, masked⟩
      obtain ⟨dot, targets⟩ := (lights column row).mp masked
      exact ⟨column, row, dot, targets, lit⟩
  constructor
  case unique =>
    rintro column row first second ⟨firstLow, firstSmall, -, here⟩
      ⟨secondLow, secondSmall, -, there⟩
    exact inputs.edge.target?_injective _ _ (by omega) (by omega) (by omega) (by omega) here there
  case toggled =>
    intro column row targeted
    rw [frame, Frame.lit_toggle, (lights column row).mpr targeted, Bool.xor_true]
  case kept =>
    intro column row untargeted
    have dark : mask.lit column row = false := by
      rw [← Bool.not_eq_true, lights]
      exact untargeted
    rw [frame, Frame.lit_toggle, dark, Bool.xor_false]
  case collision =>
    intro collides
    have met : machine.advance.frame.meets mask = true := meets.mp collides
    rw [stamp, register_setRegister, if_pos rfl, if_pos met]
  case clear =>
    intro free
    have missed : ¬ machine.advance.frame.meets mask = true := fun met => free (meets.mpr met)
    rw [stamp, register_setRegister, if_pos rfl, if_neg missed]
  case registers =>
    intro other plain
    rw [stamp, register_setRegister, if_neg plain]
    rfl
  case counter => exact toNat_add_two
  all_goals rfl

/-- The first glyph, drawn with the flag register as both coordinates of its corner, wraps around
to the lower right without a collision. -/
theorem perform_draw_glyph :
    (0x50 : UInt16).toNat + 5 ≤ 4096 ∧
      ∃ next, { initial.setRegister flag 62 with index := 0x50 }.perform ⟨.released, .wrap, 0⟩
          (.draw flag flag ⟨5, by decide⟩) = .ok next ∧
        next.frame.lit ⟨62, by decide⟩ ⟨30, by decide⟩ = true ∧ next.register flag = 0 := by
  have inside : (0x50 : UInt16).toNat + 5 ≤ 4096 := by decide
  have row : initial.memory.bytes[(80 : Nat)]? = some 0xF0 := by
    rw [Vector.getElem?_eq_getElem (by decide)]
    show some Memory.initial.bytes[80] = _
    rw [Memory.getElem_initial]
    rfl
  obtain ⟨next, performed, drawn⟩ := perform_draw_pixelwise
    { initial.setRegister flag 62 with index := 0x50 } ⟨.released, .wrap, 0⟩ flag flag
    ⟨5, by decide⟩ inside
  refine ⟨inside, next, performed, ?_, drawn.clear ?_⟩
  · rw [drawn.toggled _ _ ⟨⟨0, 0⟩, by decide, by decide, ⟨0xF0, row, by decide⟩, by decide⟩]
    rfl
  · rintro ⟨column, row, dot, -, lit⟩
    exact Bool.false_ne_true ((Frame.lit_blank column row).symm.trans lit)

end Chip8.Machine
