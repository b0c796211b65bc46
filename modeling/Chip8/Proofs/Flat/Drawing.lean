import Chip8.Proofs.Flat

/-!
# Drawing dot by dot

The flat interpreter draws a sprite by toggling one byte after the other and raises the flag as soon
as a lit one is met. The interpreter toggles the whole frame at once. They agree because no two dots
have the same target: a pixel that a dot finds lit was lit before the draw.
-/

namespace Chip8

namespace Flat

/-- What follows a result that is there is done with it. -/
@[simp] theorem ok_bind {α β : Type} (found : α) (follow : α → Except Stop β) :
    (Except.ok found >>= follow) = follow found := rfl

/-- A number below two to the thirty-second is a size. -/
theorem size_of_lt {number : Nat} (small : number < 4294967296) : size number = .ok number := by
  rw [size, if_pos small]

/-- A place inside an array has a cell. -/
theorem entry_toList {α : Type} {count : Nat} (cells : Vector α count) (place : Nat)
    (inside : place < count) : entry cells.toList place = .ok cells[place] := by
  rw [entry, dif_pos (by rwa [Vector.length_toList]), Vector.getElem_toList]

/-- A cell is put into a place inside an array. -/
theorem put_of_lt {α : Type} {count : Nat} (cells : Vector α count) (place : Nat) (cell : α)
    (inside : place < count) : put cells place cell = .ok (cells.set place cell) := by
  rw [put, dif_pos inside]

end Flat

/-- Bytes show a picture when each of them is one if its pixel is lit and zero if not. -/
def Shows (pixels : Vector UInt8 2048) (lit : Fin 64 → Fin 32 → Bool) : Prop :=
  ∀ (x : Fin 64) (y : Fin 32), pixels[x.val + y.val * 64] = if lit x y then 1 else 0

/-- Two arrays of bytes that show the same picture are the same. -/
theorem Shows.unique {left right : Vector UInt8 2048} {lit : Fin 64 → Fin 32 → Bool}
    (here : Shows left lit) (there : Shows right lit) : left = right := by
  apply Vector.ext
  intro place inside
  have split : place % 64 + place / 64 * 64 = place := by omega
  have first := here ⟨place % 64, by omega⟩ ⟨place / 64, by omega⟩
  have second := there ⟨place % 64, by omega⟩ ⟨place / 64, by omega⟩
  simp only [split] at first second
  rw [first, second]

/-- The bytes of a frame show its pixels. -/
theorem shows_cells (frame : Frame) : Shows frame.cells frame.lit := by
  intro x y
  have column : (x.val + y.val * 64) % 64 = x := by omega
  have row : (x.val + y.val * 64) / 64 = y := by omega
  simp only [Frame.cells, Vector.getElem_ofFn, column, row]

namespace Flat

variable {pixels : Vector UInt8 2048} {lit : Fin 64 → Fin 32 → Bool}
  (registers : Vector UInt8 16)

/-- Toggling the byte of a pixel toggles that pixel, and raises the flag if it was lit. -/
theorem toggle_of_shows (shown : Shows pixels lit) (x : Fin 64) (y : Fin 32) :
    ∃ toggled,
      toggle pixels registers (x + y * 64) =
        .ok (toggled, if lit x y then registers.set 15 1 else registers) ∧
      Shows toggled fun column row => lit column row ^^ decide (x = column ∧ y = row) := by
  have inside : x.val + y.val * 64 < 2048 := by omega
  refine ⟨pixels.set (x + y * 64) (pixels[x.val + y.val * 64] ^^^ 1), ?_, ?_⟩
  · rw [toggle, entry_toList _ _ inside, ok_bind, put_of_lt _ _ _ inside, shown x y]
    cases lit x y with
    | false => rfl
    | true => rfl
  · intro column row
    show (pixels.set (x + y * 64) _)[column.val + row.val * 64] =
      if (lit column row ^^ decide (x = column ∧ y = row)) then 1 else 0
    rw [Vector.getElem_set]
    by_cases same : x = column ∧ y = row
    · obtain ⟨rfl, rfl⟩ := same
      rw [if_pos rfl, shown x y, decide_eq_true ⟨rfl, rfl⟩, Bool.xor_true]
      cases lit x y with
      | false => rfl
      | true => rfl
    · have apart : ¬ x.val + y.val * 64 = column.val + row.val * 64 := by
        intro equal
        exact same ⟨by omega, by omega⟩
      rw [if_neg apart, shown column row, decide_eq_false same, Bool.xor_false]

/-- A dot toggles its target, if it has one. -/
theorem drawDot_eq (edge : Edge) (left top : UInt8) {dot : Dot} (rows : dot.row < 32)
    (bits : dot.bit < 64) :
    drawDot edge left top (pixels, registers) dot =
      match edge.target? left top dot with
      | some (x, y) => toggle pixels registers (x + y * 64)
      | none => .ok (pixels, registers) := by
  have leftBound := left.toNat_lt
  have topBound := top.toNat_lt
  rw [drawDot, size_of_lt (by omega), ok_bind, size_of_lt (by omega), ok_bind]
  cases edge with
  | clip =>
    by_cases inside : left.toNat + dot.bit < 64 ∧ top.toNat + dot.row < 32
    · have seen : ¬ (64 ≤ left.toNat + dot.bit ∨ 32 ≤ top.toNat + dot.row) := by omega
      simp only [Edge.target?, inside, seen, ↓reduceIte, ↓reduceDIte, and_self]
      rw [size_of_lt (by omega), ok_bind]
    · have unseen : 64 ≤ left.toNat + dot.bit ∨ 32 ≤ top.toNat + dot.row := by omega
      simp only [Edge.target?, inside, unseen, ↓reduceIte, ↓reduceDIte]
      rfl
  | wrap =>
    simp only [Edge.target?]
    rw [size_of_lt (by omega), ok_bind]

/-- Whether a pixel is the target of one of several dots. -/
def hit (edge : Edge) (left top : UInt8) (marks : List Dot) (x : Fin 64) (y : Fin 32) : Bool :=
  marks.any fun dot => edge.target? left top dot = some (x, y)

/-- Whether a pixel is the target of the first of several dots or of another one. -/
theorem hit_cons (edge : Edge) (left top : UInt8) (dot : Dot) (marks : List Dot) (x : Fin 64)
    (y : Fin 32) :
    hit edge left top (dot :: marks) x y =
      (decide (edge.target? left top dot = some (x, y)) || hit edge left top marks x y) := rfl

/-- Several dots of which no two have the same target toggle all their targets, and raise the flag
if one of these was lit before the first of them. -/
theorem foldlM_drawDot (edge : Edge) (left top : UInt8) (marks : List Dot)
    (near : ∀ dot ∈ marks, dot.row < 32 ∧ dot.bit < 64) (distinct : marks.Nodup)
    (shown : Shows pixels lit) :
    ∃ drawn raised,
      marks.foldlM (drawDot edge left top) (pixels, registers) =
        .ok (drawn, if raised then registers.set 15 1 else registers) ∧
      Shows drawn (fun x y => lit x y ^^ hit edge left top marks x y) ∧
      (raised = true ↔ ∃ x y, lit x y = true ∧ hit edge left top marks x y = true) := by
  induction marks generalizing pixels registers lit with
  | nil =>
    refine ⟨pixels, false, rfl, ?_, ?_⟩
    · intro x y
      rw [shown x y]
      exact congrArg (fun on => if on = true then (1 : UInt8) else 0) (Bool.xor_false _).symm
    · simp [hit]
  | cons dot marks ih =>
    obtain ⟨rows, bits⟩ := near dot List.mem_cons_self
    have later := fun other member => near other (List.mem_cons_of_mem dot member)
    obtain ⟨first, rest⟩ := List.nodup_cons.mp distinct
    rw [List.foldlM_cons, drawDot_eq registers edge left top rows bits]
    cases falls : edge.target? left top dot with
    | none =>
      obtain ⟨drawn, raised, folded, shows, flagged⟩ := ih registers later rest shown
      refine ⟨drawn, raised, folded, ?_, ?_⟩
      · simpa only [hit_cons, falls, reduceCtorEq, decide_false, Bool.false_or] using shows
      · simpa only [hit_cons, falls, reduceCtorEq, decide_false, Bool.false_or] using flagged
    | some target =>
      obtain ⟨x, y⟩ := target
      -- No later dot has this target, so what they find lit was lit before this one as well.
      have alone : hit edge left top marks x y = false := by
        rw [hit, List.any_eq_false]
        intro other member same
        have equal := edge.target?_injective left top rows bits (later other member).1
          (later other member).2 falls (of_decide_eq_true same)
        exact first (equal ▸ member)
      obtain ⟨toggled, once, showsOnce⟩ := toggle_of_shows registers shown x y
      obtain ⟨drawn, raised, folded, shows, flagged⟩ :=
        ih (if lit x y then registers.set 15 1 else registers) later rest showsOnce
      have hits (column : Fin 64) (row : Fin 32) : hit edge left top (dot :: marks) column row =
          (decide (x = column ∧ y = row) || hit edge left top marks column row) := by
        simp only [hit_cons, falls, Option.some.injEq, Prod.mk.injEq]
      have apart (column : Fin 64) (row : Fin 32)
          (other : hit edge left top marks column row = true) : ¬ (x = column ∧ y = row) := by
        rintro ⟨rfl, rfl⟩
        rw [alone] at other
        cases other
      refine ⟨drawn, raised || lit x y, ?_, ?_, ?_⟩
      · show (toggle pixels registers (x + y * 64) >>= fun drawn =>
          marks.foldlM (drawDot edge left top) drawn) = _
        rw [once, ok_bind, folded]
        cases raised with
        | false => rfl
        | true =>
          cases lit x y with
          | false => rfl
          | true =>
            rw [if_pos rfl, if_pos rfl, Vector.set_set]
            rfl
      · intro column row
        rw [shows column row]
        by_cases same : x = column ∧ y = row
        · obtain ⟨rfl, rfl⟩ := same
          simp only [hits, alone, and_self, decide_true, Bool.xor_false, Bool.or_false]
        · simp only [hits, same, decide_false, Bool.xor_false, Bool.false_or]
      · rw [Bool.or_eq_true, flagged]
        constructor
        · rintro (⟨column, row, found, other⟩ | found)
          · rw [decide_eq_false (apart column row other), Bool.xor_false] at found
            exact ⟨column, row, found, by rw [hits, other, Bool.or_true]⟩
          · exact ⟨x, y, found, by rw [hits, decide_eq_true ⟨rfl, rfl⟩, Bool.true_or]⟩
        · rintro ⟨column, row, found, other⟩
          by_cases same : x = column ∧ y = row
          · obtain ⟨rfl, rfl⟩ := same
            exact .inr found
          · rw [hits, decide_eq_false same, Bool.false_or] at other
            refine .inl ⟨column, row, ?_, other⟩
            rw [decide_eq_false same, Bool.xor_false]
            exact found

/-- A sprite drawn dot by dot is the frame toggled with the placed sprite, and the flag is raised
exactly when the two meet. -/
theorem foldlM_drawDot_cells (edge : Edge) (left top : UInt8) (sprite : List UInt8)
    (short : sprite.length ≤ 32) (frame : Frame) :
    (dots sprite).foldlM (drawDot edge left top) (frame.cells, registers) =
      .ok ((frame.toggle (.ofSprite edge sprite left top)).cells,
        if frame.meets (.ofSprite edge sprite left top) then registers.set 15 1
        else registers) := by
  obtain ⟨drawn, raised, folded, shows, flagged⟩ := foldlM_drawDot registers
    edge left top (dots sprite) (fun dot member => bounds_of_mem_dots short member)
    (nodup_dots sprite) (shows_cells frame)
  have masked (x : Fin 64) (y : Fin 32) : hit edge left top (dots sprite) x y =
      (Frame.ofSprite edge sprite left top).lit x y := by
    rw [Bool.eq_iff_iff, Frame.lit_ofSprite_iff_target edge sprite short, hit, List.any_eq_true]
    simp only [decide_eq_true_eq]
  have picture : drawn = (frame.toggle (.ofSprite edge sprite left top)).cells := by
    refine Shows.unique ?_ (shows_cells _)
    intro x y
    rw [shows x y]
    simp only [masked, Frame.lit_toggle]
  have collides : raised = frame.meets (.ofSprite edge sprite left top) := by
    rw [Bool.eq_iff_iff, flagged, Frame.meets_iff]
    simp only [masked]
  rw [folded, picture, collides]

end Flat

end Chip8
