import Chip8.Proofs.Flat.Simulation

/-!
# Reachable interpreters are safe

Every run of the flat interpreter from power-on goes through, and what it comes to is the reachable
interpreter laid out. Its bytes for pixels and keys are therefore zero or one, its stack holds at
most sixteen addresses, and each of them has room for the return. The program counter is no part of
this: the host may drive it to any word, and only a step that succeeds brings it back near memory.
-/

namespace Chip8

/-- The flat interpreter after commands from power-on. -/
def Flat.run (settings : Settings) (commands : List Command) : Except Stop Flat := do
  commands.foldlM apply (← powerOn settings)

/-- A byte of a frame is zero or one. -/
theorem Frame.cells_le_one (frame : Frame) (place : Nat) (inside : place < 2048) :
    frame.cells[place] = 0 ∨ frame.cells[place] = 1 := by
  rw [cells, Vector.getElem_ofFn]
  split
  · exact .inr rfl
  · exact .inl rfl

/-- A byte of the pad is zero or one. -/
theorem Keys.cells_le_one (keys : Keys) (key : Nat) (inside : key < 16) :
    keys.cells[key] = 0 ∨ keys.cells[key] = 1 := by
  rw [cells, Vector.getElem_map]
  split
  · exact .inr rfl
  · exact .inl rfl

namespace Flat

/-- The flat interpreter goes through commands from the layout of a reachable interpreter to that of
what they leave. -/
theorem foldlM_apply {interpreter : Interpreter} (reachable : interpreter.Reachable)
    (commands : List Command) :
    commands.foldlM apply interpreter.flat = .ok (interpreter.applyAll commands).flat := by
  induction commands generalizing interpreter with
  | nil => rfl
  | cons command commands ih =>
    rw [List.foldlM_cons, interpreter.apply_flat reachable.returnable, ok_bind,
      ih (reachable.apply command)]
    rfl

/-- So it does from power-on, with settings that are accepted. -/
theorem run_eq {settings : Settings} (accepted : settings.check = .ok ())
    (commands : List Command) :
    run settings commands = .ok ((Interpreter.powerOn settings).applyAll commands).flat := by
  rw [run, Interpreter.powerOn_flat, ok_bind, foldlM_apply (Interpreter.reachable_powerOn accepted)]

end Flat

namespace Interpreter

/-- A reachable interpreter comes from commands at power-on, and the flat interpreter goes through
them to its layout. -/
theorem Reachable.run_flat {interpreter : Interpreter} (reachable : interpreter.Reachable) :
    ∃ settings commands, settings.check = .ok () ∧
      (powerOn settings).applyAll commands = interpreter ∧
      Flat.run settings commands = .ok interpreter.flat := by
  obtain ⟨settings, commands, accepted, rfl⟩ : ∃ settings commands, settings.check = .ok () ∧
      (powerOn settings).applyAll commands = interpreter := by
    induction reachable with
    | standard => exact ⟨.standard, [], rfl, rfl⟩
    | create created =>
      obtain ⟨accepted, rfl⟩ := (create_eq_ok_iff _ _).mp created
      exact ⟨_, [], accepted, rfl⟩
    | @apply interpreter reachable command ih =>
      obtain ⟨settings, commands, accepted, rfl⟩ := ih
      exact ⟨settings, commands ++ [command], accepted, applyAll_append _ _ _⟩
  exact ⟨settings, commands, accepted, rfl, Flat.run_eq accepted commands⟩

/-- Passing over instructions moves the program counter on by twos, around the end of its words. -/
theorem toNat_pc_passOver (interpreter : Interpreter) (count : Nat) :
    (interpreter.applyAll (List.replicate count .passOver)).machine.pc.toNat =
      (interpreter.machine.pc.toNat + 2 * count) % 65536 := by
  have two : (2 : UInt16).toNat = 2 := rfl
  induction count generalizing interpreter with
  | zero =>
    have bound := interpreter.machine.pc.toNat_lt
    show interpreter.machine.pc.toNat = _
    omega
  | succ count ih =>
    show (interpreter.passOver.applyAll (List.replicate count .passOver)).machine.pc.toNat = _
    rw [ih]
    show ((interpreter.machine.pc + 2).toNat + 2 * count) % 65536 = _
    rw [UInt16.toNat_add, two]
    omega

/-- Passing over enough instructions leads to any word that is even or odd as the program counter
is. -/
theorem exists_passOver (interpreter : Interpreter) (word : UInt16)
    (parity : word.toNat % 2 = interpreter.machine.pc.toNat % 2) :
    ∃ count, (interpreter.applyAll (List.replicate count .passOver)).machine.pc = word := by
  have bound := interpreter.machine.pc.toNat_lt
  have wordBound := word.toNat_lt
  refine ⟨(word.toNat + 65536 - interpreter.machine.pc.toNat) / 2, ?_⟩
  apply UInt16.toNat_inj.mp
  rw [toNat_pc_passOver]
  omega

/-- A program may start with a jump to an odd address. -/
theorem pc_step_jump (settings : Settings) (random : UInt8) :
    (((powerOn settings).load [0x12, 0x01]).2.step random).2.machine.pc = 0x201 := by
  have found : ((powerOn settings).load [0x12, 0x01]).2.machine.instruction =
      .ok (.jump ⟨0x201, by decide⟩) := instruction_load_powerOn settings (by decide) rfl
  rw [step, Machine.cycle, found]
  rfl

/-- Commands after a reset start at power-on. -/
theorem applyAll_reset (interpreter : Interpreter) (rest : List Command) :
    interpreter.applyAll (.reset :: rest) = (powerOn interpreter.settings).applyAll rest := rfl

/-- Commands after a load and a step start at what those leave. -/
theorem applyAll_load_step (interpreter : Interpreter) (program : List UInt8) (random : UInt8)
    (rest : List Command) :
    interpreter.applyAll (.load program :: .step random :: rest) =
      ((interpreter.load program).2.step random).2.applyAll rest := rfl

/-- The host may drive the program counter to any word. -/
theorem exists_applyAll_pc (interpreter : Interpreter) (word : UInt16) :
    ∃ commands, (interpreter.applyAll commands).machine.pc = word := by
  by_cases even : word.toNat % 2 = 0
  · have start : (powerOn interpreter.settings).machine.pc.toNat % 2 = 0 := by
      show (0x200 : UInt16).toNat % 2 = 0
      decide
    obtain ⟨count, driven⟩ := exists_passOver _ word (by rw [start, even])
    refine ⟨.reset :: List.replicate count .passOver, ?_⟩
    rw [applyAll_reset]
    exact driven
  · have jumped := pc_step_jump interpreter.settings 0
    have start : (((powerOn interpreter.settings).load [0x12, 0x01]).2.step 0).2.machine.pc.toNat
        % 2 = 1 := by
      rw [jumped]
      decide
    obtain ⟨count, driven⟩ := exists_passOver _ word (by rw [start]; omega)
    refine ⟨.reset :: .load [0x12, 0x01] :: .step 0 :: List.replicate count .passOver, ?_⟩
    rw [applyAll_reset, applyAll_load_step]
    exact driven

/-- A reachable interpreter is safe. The flat interpreter comes to its layout from power-on; there
the pixels and keys are zero or one, at most sixteen slots of the stack are in use, and each of
those holds an address from which a return goes on; no command breaks it, and a step that succeeds
leaves the program counter at most an offset jump past memory. Passing over instructions leads
beyond that, to every word of the same parity, and with the other commands to every word. -/
theorem Reachable.safe {interpreter : Interpreter} (reachable : interpreter.Reachable) :
    (∃ settings commands, settings.check = .ok () ∧
      (powerOn settings).applyAll commands = interpreter ∧
      Flat.run settings commands = .ok interpreter.flat) ∧
    (∀ place (inside : place < 2048),
      interpreter.flat.pixels[place] = 0 ∨ interpreter.flat.pixels[place] = 1) ∧
    (∀ key (inside : key < 16),
      interpreter.flat.keys[key] = 0 ∨ interpreter.flat.keys[key] = 1) ∧
    interpreter.flat.depth.toNat ≤ 16 ∧
    (∀ slot (inside : slot < 16), slot < interpreter.flat.depth.toNat →
      interpreter.flat.slots[slot].toNat ≤ 0xFFE) ∧
    (∀ command, interpreter.flat.apply command = .ok (interpreter.apply command).2.flat) ∧
    (∀ random outcome after, interpreter.step random = (.ok outcome, after) →
      after.machine.pc.toNat ≤ 0x10FE) ∧
    (∀ word : UInt16, word.toNat % 2 = interpreter.machine.pc.toNat % 2 →
      ∃ count, (interpreter.applyAll (List.replicate count .passOver)).machine.pc = word) ∧
    (∀ word : UInt16, ∃ commands, (interpreter.applyAll commands).machine.pc = word) := by
  refine ⟨reachable.run_flat, ?_, ?_, ?_, ?_, ?_, ?_, ?_, ?_⟩
  · exact interpreter.machine.frame.cells_le_one
  · exact interpreter.keys.cells_le_one
  · rw [toNat_depth_flat]
    exact interpreter.machine.stack.depth_le
  · intro slot inside used
    rw [toNat_depth_flat] at used
    exact reachable.returnable _ (interpreter.machine.stack.slot_mem_toList slot used)
  · exact interpreter.apply_flat reachable.returnable
  · intro random outcome after stepped
    exact reachable.pc_of_step stepped
  · exact interpreter.exists_passOver
  · exact interpreter.exists_applyAll_pc

/-- A program that calls from its first instruction leaves an address on the stack. -/
theorem safe_call :
    Reachable (((powerOn .standard).load [0x22, 0x04]).2.step 0).2 ∧
      (((powerOn .standard).load [0x22, 0x04]).2.step 0).2.flat.depth = 1 ∧
      (((powerOn .standard).load [0x22, 0x04]).2.step 0).2.flat.slots[0].toNat ≤ 0xFFE := by
  have reachable := (Reachable.standard.afterLoad [0x22, 0x04]).afterStep 0
  have found : ((powerOn .standard).load [0x22, 0x04]).2.machine.instruction =
      .ok (.call ⟨0x204, by decide⟩) := instruction_load_powerOn _ (by decide) rfl
  have depth : (((powerOn .standard).load [0x22, 0x04]).2.step 0).2.flat.depth = 1 := by
    rw [step, Machine.cycle, found]
    rfl
  obtain ⟨-, -, -, -, slots, -⟩ := Reachable.safe reachable
  exact ⟨reachable, depth, slots 0 (by decide) (by rw [depth]; decide)⟩

end Interpreter

end Chip8
