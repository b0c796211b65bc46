import Mathlib.Data.List.Nodup
import Chip8.Frame.Sprite

/-!
# Sprites dot by dot

A placed sprite is a frame of row words, and here it is described by its dots, the set pixels of the
sprite. Each dot has at most one pixel of the display as its target. Conversely the pixel tells what
the dot would be (`Edge.source?`), so no two dots share a target, and a pixel of the placed sprite
is lit exactly when a dot has it as its target.
-/

namespace Chip8

/-- A pixel of a sprite: its row, and its place in that row from the left. -/
structure Dot where
  /-- The row, from the top. -/
  row : Nat
  /-- The place in the row, from the left. -/
  bit : Nat
  deriving DecidableEq

/-- The set pixels of a sprite, row after row, each row from the left. -/
def dots (sprite : List UInt8) : List Dot :=
  (List.range sprite.length).flatMap fun row =>
    ((List.range 8).filter fun bit =>
      sprite[row]?.any fun byte => byte.toNat.testBit (7 - bit)).map fun bit => ⟨row, bit⟩

/-- The pixel of the display on which a dot falls when the corner of its sprite is at column `left`
and row `top`. -/
def Edge.target? (edge : Edge) (left top : UInt8) (dot : Dot) : Option (Fin 64 × Fin 32) :=
  match edge with
  | .clip =>
    if inside : left.toNat + dot.bit < 64 ∧ top.toNat + dot.row < 32 then
      some (⟨left.toNat + dot.bit, inside.1⟩, ⟨top.toNat + dot.row, inside.2⟩)
    else none
  | .wrap =>
    some (⟨(left.toNat + dot.bit) % 64, Nat.mod_lt _ (Nat.zero_lt_succ _)⟩,
      ⟨(top.toNat + dot.row) % 32, Nat.mod_lt _ (Nat.zero_lt_succ _)⟩)

/-- The place, in a sprite row whose first pixel is in column `left`, of the pixel that falls in
column `column`. -/
def Edge.bit? (edge : Edge) (left column : Nat) : Option Nat :=
  match edge with
  | .clip => if left ≤ column then some (column - left) else none
  | .wrap => some ((column + 64 - left % 64) % 64)

/-- The dot that would fall on a pixel of the display. -/
def Edge.source? (edge : Edge) (left top : UInt8) (x : Fin 64) (y : Fin 32) : Option Dot :=
  (edge.place? top.toNat y).bind fun row => (edge.bit? left.toNat x).map fun bit => ⟨row, bit⟩

/-- A dot of a sprite is a set bit of one of its bytes. -/
theorem mem_dots (sprite : List UInt8) (dot : Dot) :
    dot ∈ dots sprite ↔ ∃ byte, sprite[dot.row]? = some byte ∧ dot.bit < 8 ∧
      byte.toNat.testBit (7 - dot.bit) = true := by
  obtain ⟨row, bit⟩ := dot
  simp only [dots, List.mem_flatMap, List.mem_range, List.mem_map, List.mem_filter, Dot.mk.injEq,
    Option.any_eq_true]
  constructor
  · rintro ⟨row, -, bit, ⟨small, byte, found, set⟩, rfl, rfl⟩
    exact ⟨byte, found, small, set⟩
  · rintro ⟨byte, found, small, set⟩
    obtain ⟨inside, -⟩ := List.getElem?_eq_some_iff.mp found
    exact ⟨row, inside, bit, ⟨small, byte, found, set⟩, rfl, rfl⟩

/-- No dot is listed twice. -/
theorem nodup_dots (sprite : List UInt8) : (dots sprite).Nodup := by
  unfold dots
  rw [List.nodup_flatMap]
  constructor
  · intro row _
    refine List.Nodup.map ?_ (List.Nodup.filter _ List.nodup_range)
    intro left right same
    exact (Dot.mk.inj same).2
  · refine List.Pairwise.imp ?_ List.nodup_range
    intro first second differ dot here there
    obtain ⟨_, -, rfl⟩ := List.mem_map.mp here
    obtain ⟨_, -, same⟩ := List.mem_map.mp there
    exact differ (Dot.mk.inj same).1.symm

/-- The target of a dot and the source of a pixel are inverse to each other. -/
theorem Edge.target?_eq_some_iff (edge : Edge) (left top : UInt8) {dot : Dot}
    (rows : dot.row < 32) (bits : dot.bit < 64) (x : Fin 64) (y : Fin 32) :
    edge.target? left top dot = some (x, y) ↔ edge.source? left top x y = some dot := by
  obtain ⟨x, xBound⟩ := x
  obtain ⟨y, yBound⟩ := y
  obtain ⟨row, bit⟩ := dot
  change row < 32 at rows
  change bit < 64 at bits
  cases edge with
  | clip =>
    simp only [target?, source?, place?, bit?]
    constructor
    · intro targeted
      split at targeted
      · simp only [Option.some.injEq, Prod.mk.injEq, Fin.mk.injEq] at targeted
        have below : top.toNat ≤ y := by omega
        have right : left.toNat ≤ x := by omega
        rw [if_pos below, if_pos right]
        simp only [Option.bind_some, Option.map_some, Option.some.injEq, Dot.mk.injEq]
        omega
      · cases targeted
    · intro comes
      obtain ⟨place, placed, comes⟩ := Option.bind_eq_some_iff.mp comes
      obtain ⟨column, found, same⟩ := Option.map_eq_some_iff.mp comes
      obtain ⟨rfl, rfl⟩ := Dot.mk.inj same
      split at placed
      · split at found
        · obtain rfl := Option.some.inj placed
          obtain rfl := Option.some.inj found
          rw [dif_pos (by omega)]
          simp only [Option.some.injEq, Prod.mk.injEq, Fin.mk.injEq]
          omega
        · cases found
      · cases placed
  | wrap =>
    simp only [target?, source?, place?, bit?, Option.bind_some, Option.map_some,
      Option.some.injEq, Prod.mk.injEq, Fin.mk.injEq, Dot.mk.injEq]
    constructor
    · rintro ⟨rfl, rfl⟩
      omega
    · rintro ⟨rfl, rfl⟩
      omega

/-- Two dots with one target are the same. -/
theorem Edge.target?_injective (edge : Edge) (left top : UInt8) {first second : Dot}
    (firstRow : first.row < 32) (firstBit : first.bit < 64) (secondRow : second.row < 32)
    (secondBit : second.bit < 64) {target : Fin 64 × Fin 32}
    (here : edge.target? left top first = some target)
    (there : edge.target? left top second = some target) : first = second := by
  have source := (edge.target?_eq_some_iff left top firstRow firstBit _ _).mp here
  rw [(edge.target?_eq_some_iff left top secondRow secondBit _ _).mp there] at source
  exact (Option.some.inj source).symm

/-- A bit of a byte counted from the left. -/
theorem getMsbD_byte (byte : UInt8) (bit : Nat) :
    byte.toBitVec.getMsbD bit = true ↔ bit < 8 ∧ byte.toNat.testBit (7 - bit) = true := by
  rw [BitVec.getMsbD, Bool.and_eq_true, decide_eq_true_eq, BitVec.getLsbD, UInt8.toNat_toBitVec]

/-- A strip is lit in a column exactly when the pixel that falls there is set in the byte. -/
theorem Edge.getMsbD_strip (edge : Edge) (left : Nat) (byte : UInt8) (x : Fin 64) :
    (edge.strip left byte).getMsbD x = true ↔
      ∃ bit, edge.bit? left x = some bit ∧ bit < 8 ∧ byte.toNat.testBit (7 - bit) = true := by
  cases edge with
  | clip =>
    rw [getMsbD_strip_clip, Bool.and_eq_true, decide_eq_true_eq, getMsbD_byte]
    by_cases right : left ≤ x
    · simp only [bit?, right, ↓reduceIte, true_and, Option.some.injEq, exists_eq_left']
    · simp only [bit?, right, ↓reduceIte, false_and, reduceCtorEq, exists_false]
  | wrap =>
    rw [getMsbD_strip_wrap, getMsbD_byte]
    simp only [bit?, Option.some.injEq, exists_eq_left']

/-- A pixel of a placed sprite is lit exactly when its source is a dot of the sprite. -/
theorem Frame.lit_ofSprite_iff_source (edge : Edge) (sprite : List UInt8) (left top : UInt8)
    (x : Fin 64) (y : Fin 32) :
    (Frame.ofSprite edge sprite left top).lit x y = true ↔
      ∃ dot ∈ dots sprite, edge.source? left top x y = some dot := by
  rw [lit_ofSprite, Edge.source?]
  cases edge.place? top.toNat y with
  | none => simp only [Option.bind_none, Bool.false_eq_true, reduceCtorEq, and_false, exists_false]
  | some row =>
    rw [Option.bind_some, Option.bind_some]
    constructor
    · intro lit
      split at lit
      · next byte found =>
        obtain ⟨bit, falls, small, set⟩ := (Edge.getMsbD_strip _ _ _ _).mp lit
        refine ⟨⟨row, bit⟩, (mem_dots _ _).mpr ⟨byte, found, small, set⟩, ?_⟩
        rw [falls]
        rfl
      · cases lit
    · rintro ⟨dot, member, comes⟩
      obtain ⟨bit, falls, rfl⟩ := Option.map_eq_some_iff.mp comes
      obtain ⟨byte, found, small, set⟩ := (mem_dots _ _).mp member
      change sprite[row]? = some byte at found
      rw [found]
      exact (Edge.getMsbD_strip _ _ _ _).mpr ⟨bit, falls, small, set⟩

/-- The dots of a sprite of at most thirty-two rows are near enough that their targets tell them
apart. -/
theorem bounds_of_mem_dots {sprite : List UInt8} (short : sprite.length ≤ 32) {dot : Dot}
    (member : dot ∈ dots sprite) : dot.row < 32 ∧ dot.bit < 64 := by
  obtain ⟨byte, found, small, -⟩ := (mem_dots _ _).mp member
  obtain ⟨inside, -⟩ := List.getElem?_eq_some_iff.mp found
  omega

/-- A pixel of a placed sprite is lit exactly when it is the target of a dot. -/
theorem Frame.lit_ofSprite_iff_target (edge : Edge) (sprite : List UInt8)
    (short : sprite.length ≤ 32) (left top : UInt8) (x : Fin 64) (y : Fin 32) :
    (Frame.ofSprite edge sprite left top).lit x y = true ↔
      ∃ dot ∈ dots sprite, edge.target? left top dot = some (x, y) := by
  rw [lit_ofSprite_iff_source]
  constructor
  · rintro ⟨dot, member, comes⟩
    obtain ⟨rows, bits⟩ := bounds_of_mem_dots short member
    exact ⟨dot, member, (edge.target?_eq_some_iff left top rows bits x y).mpr comes⟩
  · rintro ⟨dot, member, falls⟩
    obtain ⟨rows, bits⟩ := bounds_of_mem_dots short member
    exact ⟨dot, member, (edge.target?_eq_some_iff left top rows bits x y).mp falls⟩

end Chip8
