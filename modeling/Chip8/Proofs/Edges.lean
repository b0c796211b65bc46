import Chip8.Proofs.Drawing
import Chip8.Proofs.Independence
import Chip8.Proofs.Toggling
import Chip8.Proofs.Transcript
import Chip8.Proofs.Waiting

/-!
# Where the settings show

The rates are for the host to keep, and the machine looks at no setting but the one for the edge,
and at that only when it draws. A dot that lies within the display falls on the same pixel either
way. One that lies beyond the edge is not seen if the sprite is clipped, and if it is wrapped falls
on a pixel that no other dot falls on. So the two ways of drawing a sprite differ exactly if one of
its dots lies beyond the edge, and a run in which none does is the same under any settings.
-/

namespace Chip8

/-- A dot lies beyond the right or the lower edge of the display when the corner of its sprite is at
column `left` and row `top`. -/
def Dot.Beyond (left top : UInt8) (dot : Dot) : Prop :=
  64 ≤ left.toNat + dot.bit ∨ 32 ≤ top.toNat + dot.row

/-- A dot that lies beyond the edge has no target when it is clipped. -/
theorem Edge.target?_clip_of_beyond {left top : UInt8} {dot : Dot} (beyond : dot.Beyond left top) :
    Edge.clip.target? left top dot = none := by
  have outside : ¬ (left.toNat + dot.bit < 64 ∧ top.toNat + dot.row < 32) := by
    unfold Dot.Beyond at beyond
    omega
  rw [target?, dif_neg outside]

/-- A dot that does not has the same target however the edge is treated. -/
theorem Edge.target?_clip_eq_wrap {left top : UInt8} {dot : Dot} (within : ¬ dot.Beyond left top) :
    Edge.clip.target? left top dot = Edge.wrap.target? left top dot := by
  have inside : left.toNat + dot.bit < 64 ∧ top.toNat + dot.row < 32 := by
    unfold Dot.Beyond at within
    omega
  rw [target?, dif_pos inside, target?]
  simp only [Nat.mod_eq_of_lt inside.1, Nat.mod_eq_of_lt inside.2]

/-- A sprite is placed alike by both treatments of the edge exactly if no dot of it lies beyond. -/
theorem Frame.ofSprite_clip_eq_wrap_iff (sprite : List UInt8) (short : sprite.length ≤ 32)
    (left top : UInt8) :
    Frame.ofSprite .clip sprite left top = Frame.ofSprite .wrap sprite left top ↔
      ∀ dot ∈ dots sprite, ¬ dot.Beyond left top := by
  constructor
  · intro same dot member beyond
    obtain ⟨⟨x, y⟩, falls⟩ : ∃ target, Edge.wrap.target? left top dot = some target :=
      ⟨_, rfl⟩
    have lit : (Frame.ofSprite .wrap sprite left top).lit x y = true :=
      (lit_ofSprite_iff_target _ _ short _ _ _ _).mpr ⟨dot, member, falls⟩
    -- The clipped sprite lights the pixel too, but with another dot, since this one is not seen.
    rw [← same, lit_ofSprite_iff_target _ _ short] at lit
    obtain ⟨other, otherMember, otherFalls⟩ := lit
    have within : ¬ other.Beyond left top := by
      intro otherBeyond
      rw [Edge.target?_clip_of_beyond otherBeyond] at otherFalls
      cases otherFalls
    rw [Edge.target?_clip_eq_wrap within] at otherFalls
    obtain ⟨rows, bits⟩ := bounds_of_mem_dots short member
    obtain ⟨otherRows, otherBits⟩ := bounds_of_mem_dots short otherMember
    have one : dot = other :=
      Edge.wrap.target?_injective left top rows bits otherRows otherBits falls otherFalls
    exact within (one ▸ beyond)
  · intro within
    apply ext_lit
    intro x y
    rw [Bool.eq_iff_iff, lit_ofSprite_iff_target _ _ short, lit_ofSprite_iff_target _ _ short]
    refine exists_congr fun dot => and_congr_right fun member => ?_
    rw [Edge.target?_clip_eq_wrap (within dot member)]

namespace Machine

/-- A dot of the sprite at the index lies beyond the edge when the corner of the sprite is at the
position in two registers. -/
def Crosses (machine : Machine) (x y : Register) (height : Fin 16) : Prop :=
  ∃ dot : Dot, dot.row < height ∧ dot.bit < 8 ∧
    (∃ byte, machine.memory.bytes[machine.index.toNat + dot.row]? = some byte ∧
      byte.toNat.testBit (7 - dot.bit) = true) ∧
    dot.Beyond (machine.register x) (machine.register y)

/-- The sprite at the index is placed alike by both treatments of the edge exactly if it does not
cross the edge. -/
theorem ofSprite_clip_eq_wrap_iff (machine : Machine) (x y : Register) (height : Fin 16)
    (inside : machine.index.toNat + height ≤ 4096) :
    Frame.ofSprite .clip (machine.sprite height inside).toList (machine.register x)
        (machine.register y) =
      Frame.ofSprite .wrap (machine.sprite height inside).toList (machine.register x)
        (machine.register y) ↔ ¬ machine.Crosses x y height := by
  have short : (machine.sprite height inside).toList.length ≤ 32 := by
    rw [Vector.length_toList]
    omega
  rw [Frame.ofSprite_clip_eq_wrap_iff _ short]
  constructor
  · rintro within ⟨dot, low, small, set, beyond⟩
    exact within dot ((machine.mem_dots_sprite height inside dot).mpr ⟨low, small, set⟩) beyond
  · intro free dot member beyond
    obtain ⟨low, small, set⟩ := (machine.mem_dots_sprite height inside dot).mp member
    exact free ⟨dot, low, small, set, beyond⟩

/-- A draw that does not cross the edge does the same whatever the inputs, and one whose sprite does
not lie in memory faults whatever they are. -/
theorem perform_draw_congr (machine : Machine) {x y : Register} {height : Fin 16}
    (free : machine.index.toNat + height ≤ 4096 → ¬ machine.Crosses x y height)
    (left right : Inputs) :
    machine.perform left (.draw x y height) = machine.perform right (.draw x y height) := by
  by_cases inside : machine.index.toNat + height ≤ 4096
  · have same := (machine.ofSprite_clip_eq_wrap_iff x y height inside).mpr (free inside)
    rw [perform_draw _ _ _ _ _ inside, perform_draw _ _ _ _ _ inside]
    cases left.edge with
    | clip => cases right.edge with
      | clip => rfl
      | wrap => rw [same]
    | wrap => cases right.edge with
      | clip => rw [same]
      | wrap => rfl
  · simp only [perform, Memory.read, dif_neg inside, Except.map]

/-- Drawn with either treatment of the edge, a sprite in memory leaves the same frame exactly if it
does not cross the edge, and then it leaves the same machine. -/
theorem draw_edges (machine : Machine) (keys : Keys) (random : UInt8) (x y : Register)
    (height : Fin 16) (inside : machine.index.toNat + height ≤ 4096) :
    ∃ clipped wrapped,
      machine.perform ⟨keys, .clip, random⟩ (.draw x y height) = .ok clipped ∧
      machine.perform ⟨keys, .wrap, random⟩ (.draw x y height) = .ok wrapped ∧
      (clipped.frame = wrapped.frame ↔ ¬ machine.Crosses x y height) ∧
      (¬ machine.Crosses x y height → clipped = wrapped) := by
  have alike := machine.ofSprite_clip_eq_wrap_iff x y height inside
  refine ⟨_, _, perform_draw _ _ _ _ _ inside, perform_draw _ _ _ _ _ inside, ?_, ?_⟩
  · rw [← alike]
    exact Frame.toggle_right_inj machine.frame _ _
  · intro free
    rw [alike.mpr free]

end Machine

namespace Interpreter

/-- No draw that some commands execute crosses the edge. -/
def StaysInside : Interpreter → List Command → Prop
  | _, [] => True
  | interpreter, command :: rest =>
    (∀ x y height,
      (interpreter.apply command).1 = .stepped (.ok (.executed (.draw x y height))) →
        ¬ interpreter.machine.Crosses x y height) ∧
    StaysInside (interpreter.apply command).2 rest

variable {interpreter : Interpreter}

/-- A step under other settings does the same, if they treat the edge alike or the step executes no
draw across it. -/
theorem Reachable.step_withSettings (reachable : interpreter.Reachable) (settings : Settings)
    (random : UInt8)
    (alike : interpreter.settings.edge = settings.edge ∨
      ∀ x y height, (interpreter.step random).1 = .ok (.executed (.draw x y height)) →
        ¬ interpreter.machine.Crosses x y height) :
    { interpreter with settings }.step random =
      (interpreter.step random).map id fun after => { after with settings } := by
  refine step_map (fun before => { before with settings }) id (fun _ => rfl) rfl ?_ fun _ => rfl
  intro instruction found
  rw [Except.map_id]
  obtain same | free := alike
  · exact interpreter.machine.perform_congr_inputs (fun _ => rfl) (fun _ _ _ _ => same.symm) rfl
  · cases instruction with
    | draw x y height =>
      refine interpreter.machine.perform_draw_congr (fun inside => free x y height ?_) _ _
      have performed :=
        interpreter.machine.perform_draw (interpreter.inputs random) x y height inside
      rw [reachable.step_of_perform found (by simp) performed]
    | _ =>
      exact interpreter.machine.perform_congr_inputs (fun _ => rfl) (fun _ _ _ same => nomatch same)
        rfl

/-- So does any command. -/
theorem Reachable.apply_withSettings (reachable : interpreter.Reachable) (settings : Settings)
    (command : Command)
    (alike : interpreter.settings.edge = settings.edge ∨ ∀ x y height,
      (interpreter.apply command).1 = .stepped (.ok (.executed (.draw x y height))) →
        ¬ interpreter.machine.Crosses x y height) :
    { interpreter with settings }.apply command =
      (interpreter.apply command).map id fun after => { after with settings } := by
  cases command with
  | load program =>
    simp only [Interpreter.apply, load]
    split
    · rfl
    · split <;> rfl
  | step random =>
    have stepped := reachable.step_withSettings settings random <| alike.imp_right
      fun free x y height executed => free x y height (congrArg Reply.stepped executed)
    simp only [Interpreter.apply, stepped]
    rfl
  | press key | release key =>
    simp only [Interpreter.apply, setKey]
    cases Key.ofByte key <;> rfl
  | takeFrame =>
    simp only [Interpreter.apply, takeFrame]
    split <;> rfl
  | _ => rfl

/-- No command changes the settings. -/
theorem settings_apply (interpreter : Interpreter) (command : Command) :
    (interpreter.apply command).2.settings = interpreter.settings := by
  cases command with
  | load program =>
    show (interpreter.load program).2.settings = interpreter.settings
    obtain ⟨fault, same⟩ | ⟨-, -, same⟩ := interpreter.load_cases program <;> rw [same]
  | step random =>
    show (interpreter.step random).2.settings = interpreter.settings
    obtain ⟨fault, -, same⟩ | ⟨found, next, -, -, same⟩ := interpreter.step_cases random <;>
      rw [same]
  | press key => exact interpreter.settings_setKey key true
  | release key => exact interpreter.settings_setKey key false
  | takeFrame =>
    show interpreter.takeFrame.2.settings = interpreter.settings
    rw [takeFrame_cases]
  | _ => rfl

/-- Commands under other settings are answered the same and leave the same but for the settings, if
these treat the edge alike or the commands execute no draw across it. -/
theorem Reachable.run_withSettings (reachable : interpreter.Reachable) (settings : Settings)
    (commands : List Command)
    (alike : interpreter.settings.edge = settings.edge ∨ interpreter.StaysInside commands) :
    { interpreter with settings }.transcript commands = interpreter.transcript commands ∧
      { interpreter with settings }.applyAll commands =
        { interpreter.applyAll commands with settings } := by
  induction commands generalizing interpreter with
  | nil => exact ⟨rfl, rfl⟩
  | cons command rest ih =>
    have one := reachable.apply_withSettings settings command (alike.imp_right And.left)
    have kept : (interpreter.apply command).2.settings = interpreter.settings :=
      interpreter.settings_apply command
    obtain ⟨replies, left⟩ := ih (reachable.apply command) (by
      rw [kept]
      exact alike.imp_right And.right)
    constructor
    · rw [transcript, transcript, one]
      exact congrArg (List.cons _) replies
    · show ({ interpreter with settings }.apply command).2.applyAll rest = _
      rw [one]
      exact left

/-- The settings show in nothing but sprites that cross the edge. A sprite that lies in memory is
drawn, and clipped and wrapped it leaves the same frame exactly if no dot of it lies beyond the
edge, and then the same machine, be it at the end of a word, where the program counter wraps around
either way and a draw on checked sums breaks (`perform_flat_eq_ok_iff`). And two interpreters,
whatever the settings they are made with, answer alike to any commands, and are the same after them
but for the settings, if these treat the edge alike or the first of the two executes no draw that
crosses it. -/
theorem settings_show_in_crossings :
    (∀ (machine : Machine) keys random x y (height : Fin 16),
      machine.index.toNat + height ≤ 4096 → ∃ clipped wrapped,
        machine.perform ⟨keys, .clip, random⟩ (.draw x y height) = .ok clipped ∧
        machine.perform ⟨keys, .wrap, random⟩ (.draw x y height) = .ok wrapped ∧
        (clipped.frame = wrapped.frame ↔ ¬ machine.Crosses x y height) ∧
        (¬ machine.Crosses x y height → clipped = wrapped)) ∧
    ∀ first second left right, create first = .ok left → create second = .ok right →
      ∀ commands, first.edge = second.edge ∨ left.StaysInside commands →
        right.transcript commands = left.transcript commands ∧
          right.applyAll commands = { left.applyAll commands with settings := second } := by
  refine ⟨Machine.draw_edges, ?_⟩
  intro first second left right made other commands alike
  obtain ⟨-, rfl⟩ := (create_eq_ok_iff _ _).mp other
  have reachable : left.Reachable := .create made
  obtain ⟨-, rfl⟩ := (create_eq_ok_iff _ _).mp made
  exact reachable.run_withSettings second commands alike

/-- A host that has the first glyph drawn in the corner, and takes the frame. -/
def cornerGlyph : List Command := [.load [0xA0, 0x50, 0xD0, 0x05], .step 0, .step 0, .takeFrame]

/-- A machine about to draw the first glyph across the right edge. -/
def edgeGlyph : Machine := { Machine.initial.setRegister Machine.offset 62 with index := 0x50 }

/-- The glyph in the corner is taken alike from a slow interpreter that wraps its sprites and from
one with the settings in use when none are given. The glyph across the edge shows which is which. -/
theorem settings_show_in_crossings_glyph :
    create ⟨.wrap, 1, 1⟩ = .ok (powerOn ⟨.wrap, 1, 1⟩) ∧
      create .standard = .ok (powerOn .standard) ∧
      (powerOn .standard).transcript cornerGlyph =
        (powerOn ⟨.wrap, 1, 1⟩).transcript cornerGlyph ∧
      edgeGlyph.index.toNat + 5 ≤ 4096 ∧ ∃ clipped wrapped,
        edgeGlyph.perform ⟨.released, .clip, 0⟩ (.draw Machine.offset Machine.offset 5) =
          .ok clipped ∧
        edgeGlyph.perform ⟨.released, .wrap, 0⟩ (.draw Machine.offset Machine.offset 5) =
          .ok wrapped ∧
        clipped.frame ≠ wrapped.frame := by
  have inside : edgeGlyph.index.toNat + 5 ≤ 4096 := by decide
  have crosses : edgeGlyph.Crosses Machine.offset Machine.offset 5 := by
    have row : edgeGlyph.memory.bytes[(80 : Nat)]? = some 0xF0 := by
      rw [Vector.getElem?_eq_getElem (by decide)]
      exact congrArg some (Memory.getElem_initial 80 (by decide))
    exact ⟨⟨0, 2⟩, by decide, by decide, ⟨0xF0, row, by decide⟩, .inl (by decide)⟩
  have corner (interpreter : Interpreter)
      (zero : interpreter.machine.registers = Vector.replicate 16 0) (x y : Register)
      (height : Fin 16) : ¬ interpreter.machine.Crosses x y height := by
    rintro ⟨dot, low, small, -, beyond⟩
    have origin (z : Register) : (interpreter.machine.register z).toNat = 0 := by
      rw [Machine.register, zero]
      simp
    unfold Dot.Beyond at beyond
    rw [origin, origin] at beyond
    omega
  have polled (interpreter : Interpreter) : interpreter.StaysInside [.takeFrame] := by
    refine ⟨?_, trivial⟩
    intro x y height executed
    cases executed
  have stays : (powerOn ⟨.wrap, 1, 1⟩).StaysInside cornerGlyph := by
    refine ⟨?_, ?_, ?_, polled _⟩
    · intro x y height executed
      cases executed
    · intro x y height _
      exact corner _ rfl x y height
    · intro x y height _
      exact corner _ (by decide +kernel) x y height
  obtain ⟨draws, runs⟩ := settings_show_in_crossings
  obtain ⟨clipped, wrapped, clips, wraps, same, -⟩ :=
    draws edgeGlyph .released 0 Machine.offset Machine.offset 5 inside
  obtain ⟨replies, -⟩ := runs ⟨.wrap, 1, 1⟩ .standard _ _ rfl rfl cornerGlyph (.inr stays)
  exact ⟨rfl, rfl, replies, inside, clipped, wrapped, clips, wraps,
    fun alike => same.mp alike crosses⟩

end Interpreter

end Chip8
