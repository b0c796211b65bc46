import Chip8.Proofs.ReturnAddresses
import Chip8.Proofs.Session.Performed
import Chip8.Proofs.Timers

/-!
# Steps that wait leave no trace

While a program waits for a key, its host goes on stepping, counts the timers down and takes the
frame. The steps change nothing but the note of the register to fill, which the first of them sets
and the key clears. So a run in which they are left out has the same replies and, once a key is put
down and the wait is over, the same interpreter. `Interpreter.unmarked` is the interpreter without
that note; every command but a step does the same to it.
-/

namespace Chip8

/-- Whether a command is a step. -/
def Command.steps : Command → Bool
  | .step _ => true
  | _ => false

/-- Whether a command is one that a host gives again and again: a step, a tick, or taking the
frame. -/
def Command.polls : Command → Bool
  | .step _ => true
  | .tick => true
  | .takeFrame => true
  | _ => false

namespace Interpreter

/-- The next instruction waits for a key to put into a register, and every key is up. -/
structure Waits (interpreter : Interpreter) (x : Register) : Prop where
  found : interpreter.machine.instruction = .ok (.awaitKey x)
  up : ∀ key, interpreter.keys.isDown key = false

/-- The interpreter without a register to fill. -/
def unmarked (interpreter : Interpreter) : Interpreter :=
  { interpreter with machine.awaiting := none }

/-- The interpreter after some keys are put down, one after the other. -/
def pressAll (interpreter : Interpreter) (presses : List Key) : Interpreter :=
  interpreter.applyAll (presses.map fun key => .press key.toByte)

/-- Keys that are put down touch the pad alone. -/
theorem pressAll_eq (interpreter : Interpreter) (presses : List Key) :
    interpreter.pressAll presses =
      { interpreter with keys := Keyboard.setAll interpreter.keys presses true } :=
  interpreter.applyAll_ofKey true presses

/-- A command that is no step takes no notice of a register to fill. -/
theorem apply_unmarked (interpreter : Interpreter) {command : Command}
    (calm : command.steps = false) :
    interpreter.unmarked.apply command =
      ((interpreter.apply command).1, (interpreter.apply command).2.unmarked) := by
  cases command with
  | load program =>
    show (interpreter.unmarked.load program).map Reply.loaded id =
      (.loaded (interpreter.load program).1, (interpreter.load program).2.unmarked)
    unfold load
    show (if interpreter.loaded then _ else _ : _ × _).map _ _ = _
    split
    · rfl
    · split <;> rfl
  | step random => cases calm
  | press key =>
    show (interpreter.unmarked.setKey key true).map Reply.keySet id =
      (.keySet (interpreter.setKey key true).1, (interpreter.setKey key true).2.unmarked)
    unfold setKey
    cases Key.ofByte key <;> rfl
  | release key =>
    show (interpreter.unmarked.setKey key false).map Reply.keySet id =
      (.keySet (interpreter.setKey key false).1, (interpreter.setKey key false).2.unmarked)
    unfold setKey
    cases Key.ofByte key <;> rfl
  | takeFrame =>
    show interpreter.unmarked.takeFrame.map Reply.frame id =
      (.frame interpreter.takeFrame.1, interpreter.takeFrame.2.unmarked)
    unfold takeFrame
    show (if interpreter.machine.redraw then _ else _ : _ × _).map _ _ = _
    split <;> rfl
  | _ => rfl

namespace Waits

variable {interpreter : Interpreter} {x : Register}

/-- The pad of an interpreter that waits has no lowest key. -/
theorem lowest (waits : interpreter.Waits x) : interpreter.keys.lowest? = none :=
  (interpreter.keys.lowest?_eq_none_iff).mpr waits.up

/-- A step of an interpreter that waits says so, and notes the register to fill. -/
theorem step (waits : interpreter.Waits x) (random : UInt8) :
    interpreter.step random =
      (.ok (.awaiting x), { interpreter with machine.awaiting := some x }) :=
  step_of_up waits.found waits.lowest random

/-- While its host only polls, an interpreter goes on waiting. -/
theorem apply (waits : interpreter.Waits x) {command : Command} (polls : command.polls = true) :
    (interpreter.apply command).2.Waits x := by
  cases command with
  | step random =>
    show (interpreter.step random).2.Waits x
    rw [waits.step]
    exact ⟨(Machine.instruction_congr rfl rfl).trans waits.found, waits.up⟩
  | tick => exact ⟨(Machine.instruction_congr rfl rfl).trans waits.found, waits.up⟩
  | takeFrame =>
    show interpreter.takeFrame.2.Waits x
    rw [takeFrame_cases]
    exact ⟨(Machine.instruction_congr rfl rfl).trans waits.found, waits.up⟩
  | _ => cases polls

/-- It does so however long that lasts. -/
theorem applyAll (waits : interpreter.Waits x) {commands : List Command}
    (polls : ∀ command ∈ commands, command.polls = true) :
    (interpreter.applyAll commands).Waits x := by
  induction commands generalizing interpreter with
  | nil => exact waits
  | cons command rest ih =>
    obtain ⟨here, later⟩ := List.forall_mem_cons.mp polls
    exact ih (waits.apply here) later

/-- A poll changes nothing but the timers, the note that the frame has changed, and the note of the
register to fill. -/
theorem apply_same (waits : interpreter.Waits x) {command : Command}
    (polls : command.polls = true) :
    ∃ delay sound redraw awaiting, (interpreter.apply command).2 = { interpreter with machine :=
      { interpreter.machine with delay, sound, redraw, awaiting } } := by
  cases command with
  | step random => exact ⟨_, _, _, _, congrArg Prod.snd (waits.step random)⟩
  | tick => exact ⟨_, _, _, _, rfl⟩
  | takeFrame => exact ⟨_, _, _, _, interpreter.takeFrame_cases⟩
  | _ => cases polls

/-- So do polls, however many. -/
theorem applyAll_same (waits : interpreter.Waits x) {commands : List Command}
    (polls : ∀ command ∈ commands, command.polls = true) :
    ∃ delay sound redraw awaiting,
      interpreter.applyAll commands = { interpreter with machine :=
        { interpreter.machine with delay, sound, redraw, awaiting } } := by
  induction commands generalizing interpreter with
  | nil => exact ⟨_, _, _, _, rfl⟩
  | cons command rest ih =>
    obtain ⟨here, later⟩ := List.forall_mem_cons.mp polls
    obtain ⟨_, _, _, _, first⟩ := waits.apply_same here
    obtain ⟨delay, sound, redraw, awaiting, whole⟩ := ih (waits.apply here) later
    refine ⟨delay, sound, redraw, awaiting, ?_⟩
    show (interpreter.apply command).2.applyAll rest = _
    rw [whole, first]

/-- The timers count the ticks among the polls, whatever the steps. -/
theorem toNat_left (waits : interpreter.Waits x) {commands : List Command}
    (polls : ∀ command ∈ commands, command.polls = true) (timer : Timer) :
    (timer.left (interpreter.applyAll commands).machine).toNat =
      (timer.left interpreter.machine).toNat - commands.count .tick := by
  induction commands generalizing interpreter with
  | nil => rfl
  | cons command rest ih =>
    obtain ⟨here, later⟩ := List.forall_mem_cons.mp polls
    have counted : ([command] ++ rest).count .tick = [command].count .tick + rest.count .tick :=
      List.count_append
    have first : (timer.left (interpreter.apply command).2.machine).toNat =
        (timer.left interpreter.machine).toNat - [command].count .tick := by
      cases command with
      | step random =>
        show (timer.left (interpreter.step random).2.machine).toNat = _
        rw [waits.step]
        cases timer <;> rfl
      | tick => exact Timer.toNat_left_tick timer interpreter.machine
      | takeFrame =>
        show (timer.left interpreter.takeFrame.2.machine).toNat = _
        rw [interpreter.takeFrame_cases]
        cases timer <;> rfl
      | _ => cases here
    have rest := ih (waits.apply here) later
    rw [first, Nat.sub_sub, ← counted] at rest
    exact rest

/-- Polls with their steps left out have the same replies, and leave the same but for the register
to fill. -/
theorem without_steps {other : Interpreter} (waits : interpreter.Waits x)
    (same : interpreter.unmarked = other.unmarked) {commands : List Command}
    (polls : ∀ command ∈ commands, command.polls = true) :
    ((interpreter.transcript commands).filter fun exchange => !exchange.command.steps) =
        other.transcript (commands.filter fun command => !command.steps) ∧
      (interpreter.applyAll commands).unmarked =
        (other.applyAll (commands.filter fun command => !command.steps)).unmarked := by
  -- The run without steps starts from its own interpreter, for the other has noted the register.
  induction commands generalizing interpreter other with
  | nil => exact ⟨rfl, same⟩
  | cons command rest ih =>
    obtain ⟨here, later⟩ := List.forall_mem_cons.mp polls
    cases steps : command.steps with
    | true =>
      have unseen : (interpreter.apply command).2.unmarked = interpreter.unmarked := by
        cases command with
        | step random =>
          show (interpreter.step random).2.unmarked = _
          rw [waits.step]
          rfl
        | _ => cases steps
      obtain ⟨replies, left⟩ := ih (waits.apply here) (unseen.trans same) later
      rw [transcript, List.filter_cons_of_neg (by simp [steps]),
        List.filter_cons_of_neg (by simp [steps])]
      exact ⟨replies, left⟩
    | false =>
      have mine := interpreter.apply_unmarked steps
      rw [same, other.apply_unmarked steps, Prod.mk.injEq] at mine
      obtain ⟨reply, unmarked⟩ := mine
      obtain ⟨replies, left⟩ := ih (waits.apply here) unmarked.symm later
      rw [transcript, List.filter_cons_of_pos (by simp [steps]),
        List.filter_cons_of_pos (by simp [steps]), transcript, replies, reply]
      exact ⟨rfl, left⟩

/-- Once some keys are put down, the next step takes the lowest of them. -/
theorem step_of_presses (waits : interpreter.Waits x) {presses : List Key}
    (some : presses ≠ []) :
    ∃ least ∈ presses, (∀ key ∈ presses, least ≤ key) ∧ ∀ random,
      let ready := interpreter.pressAll presses
      ready.step random = (.ok (.executed (.awaitKey x)), { ready with machine :=
        { ready.machine.advance.setRegister x least.toByte with awaiting := none } }) := by
  have down (key : Key) : (interpreter.pressAll presses).keys.isDown key = true ↔
      key ∈ presses := by
    rw [pressAll_eq]
    by_cases member : key ∈ presses
    · rw [Keyboard.isDown_setAll_of_mem _ _ _ _ member]
      exact iff_of_true rfl member
    · rw [Keyboard.isDown_setAll_of_not_mem _ _ _ _ member, waits.up]
      exact iff_of_false Bool.false_ne_true member
  have found : (interpreter.pressAll presses).machine.instruction = .ok (.awaitKey x) := by
    rw [pressAll_eq]
    exact waits.found
  obtain ⟨first, member⟩ := List.exists_mem_of_ne_nil _ some
  obtain ⟨least, lowest, isDown, below⟩ := Keys.exists_lowest? _ ((down first).mpr member)
  refine ⟨least, (down least).mp isDown, fun key member => below key ((down key).mpr member), ?_⟩
  exact fun random => step_of_down found lowest random

/-- A wait for a key is invisible. While the host only polls, every step says that the program waits
and changes nothing but the note of the register to fill; the timers count the ticks; and every
other command is answered as if there were no steps. If then some keys are put down, the next step
puts the lowest of them into the register and goes on to the next instruction, and it answers and
leaves the same as it does after a run without the steps that waited. -/
theorem leaves_no_trace (waits : interpreter.Waits x) {commands : List Command}
    (polls : ∀ command ∈ commands, command.polls = true) :
    (∀ before random after, commands = before ++ .step random :: after →
      (interpreter.applyAll before).step random =
        (.ok (.awaiting x), { interpreter.applyAll before with machine.awaiting := some x })) ∧
    (∀ timer : Timer, (timer.left (interpreter.applyAll commands).machine).toNat =
      (timer.left interpreter.machine).toNat - commands.count .tick) ∧
    ((interpreter.transcript commands).filter fun exchange => !exchange.command.steps) =
      interpreter.transcript (commands.filter fun command => !command.steps) ∧
    ∀ presses : List Key, presses ≠ [] →
      ∃ least ∈ presses, (∀ key ∈ presses, least ≤ key) ∧ ∀ random other,
        let ready := (interpreter.applyAll commands).pressAll presses
        let prompt := (interpreter.applyAll
          (commands.filter fun command => !command.steps)).pressAll presses
        ready.step random = (.ok (.executed (.awaitKey x)), { ready with machine :=
          { ready.machine.advance.setRegister x least.toByte with awaiting := none } }) ∧
        (ready.step random).2.machine.pc.toNat = interpreter.machine.pc.toNat + 2 ∧
        prompt.step other = ready.step random := by
  have quiet : ∀ command ∈ commands.filter fun command => !command.steps,
      command.polls = true := fun command member => polls command (List.mem_of_mem_filter member)
  obtain ⟨replies, left⟩ := waits.without_steps rfl polls
  refine ⟨?_, waits.toNat_left polls, replies, ?_⟩
  · rintro before random after rfl
    have earlier : ∀ command ∈ before, command.polls = true := fun command member =>
      polls command (List.mem_append_left _ member)
    exact (waits.applyAll earlier).step random
  · intro presses some
    obtain ⟨least, member, below, taken⟩ := (waits.applyAll polls).step_of_presses some
    obtain ⟨lowest, among, under, alike⟩ := (waits.applyAll quiet).step_of_presses some
    obtain rfl : lowest = least := Fin.le_antisymm (under least member) (below lowest among)
    refine ⟨lowest, member, below, fun random other => ⟨taken random, ?_, ?_⟩⟩
    · obtain ⟨delay, sound, redraw, awaiting, same⟩ := waits.applyAll_same polls
      rw [taken random, pressAll_eq, same]
      have room : interpreter.machine.pc.toNat < 0xFFFE :=
        Nat.lt_of_le_of_lt (Machine.pc_le_of_instruction waits.found) (by decide)
      exact Machine.toNat_add_two room
    · rw [taken random, alike other, pressAll_eq, pressAll_eq]
      -- What the key leaves is put together from what the two runs have in common.
      exact congrArg (fun before : Interpreter => (_, { before with
        keys := Keyboard.setAll before.keys presses true
        machine := { before.machine.advance.setRegister x lowest.toByte with awaiting := none } }))
        left.symm

end Waits

/-- An interpreter whose program begins with a wait for a key. -/
def listening : Interpreter := ((powerOn .standard).load [0xF5, 0x0A]).2

/-- Two steps with a tick and a look at the frame between them. -/
def spins : List Command := [.step 0, .takeFrame, .tick, .step 1]

/-- Both steps say that the program waits, and when three keys are put down, one of them twice, the
lowest is taken, as it is by a program that was not stepped before. -/
theorem leaves_no_trace_spins :
    listening.Waits 5 ∧ (∀ command ∈ spins, command.polls = true) ∧
      ((listening.applyAll [.step 0, .takeFrame, .tick]).step 1).1 = .ok (.awaiting 5) ∧
      ∃ after, ((listening.applyAll spins).pressAll [0xB, 0x4, 0x4]).step 0 =
          (.ok (.executed (.awaitKey 5)), after) ∧
        ((listening.applyAll [.takeFrame, .tick]).pressAll [0xB, 0x4, 0x4]).step 0 =
          (.ok (.executed (.awaitKey 5)), after) ∧
        after.machine.register 5 = 0x4 ∧ after.machine.pc.toNat = 0x202 := by
  have waits : listening.Waits 5 := by
    refine ⟨instruction_load_powerOn _ (by decide) rfl, ?_⟩
    rw [listening, load_powerOn _ [0xF5, 0x0A] (by decide)]
    exact Keys.isDown_released
  have start : listening.machine.pc.toNat = 0x200 := by
    rw [listening, load_powerOn _ [0xF5, 0x0A] (by decide)]
    rfl
  have polls : ∀ command ∈ spins, command.polls = true := by decide
  obtain ⟨steps, -, -, taken⟩ := waits.leaves_no_trace polls
  obtain ⟨least, member, below, whole⟩ := taken [0xB, 0x4, 0x4] (by decide)
  have lowest : ∀ key : Key, key ∈ [(0xB : Key), 0x4, 0x4] → key ≤ 0x4 → key = 0x4 := by decide
  obtain rfl := lowest least member (below 0x4 (by decide))
  obtain ⟨ready, pc, prompt⟩ := whole 0 0
  refine ⟨waits, polls, ?_, _, ready, prompt.trans ready, ?_, ?_⟩
  · rw [steps [.step 0, .takeFrame, .tick] 1 [] rfl]
  · rw [Machine.register, Machine.setRegister, Fin.getElem_fin, Vector.getElem_set_self]
    rfl
  · rw [ready, start] at pc
    exact pc

end Interpreter

end Chip8
