import Chip8.Proofs.Independence
import Chip8.Proofs.Reachable
import Chip8.Proofs.Transcript

/-!
# Ticks and key events among steps

The host counts the timers down and sets keys while a program runs. A step whose instruction has not
to do with the timers takes no notice of a tick, and one whose instruction does not look at the keys
takes no notice of a key event, nor the other way around. That is so of steps that fault too, and of
steps that wait for a key. `Command.Unnoticed` says it of one step, and by induction over the steps
such an event passes any number of them: wherever among them it comes, every reply and what is left
are the same.
-/

namespace Chip8

/-- An instruction looks at a timer or sets one. -/
def Instruction.timed : Instruction → Bool
  | .readDelay _ => true
  | .setDelay _ => true
  | .setSound _ => true
  | _ => false

/-- An instruction that has not to do with the timers takes no notice of either. -/
theorem Instruction.ignores_of_not_timed {instruction : Instruction}
    (free : instruction.timed = false) :
    instruction.Ignores .delay ∧ instruction.Ignores .sound := by
  cases instruction <;> simp [timed, Ignores, reads, writes] at free ⊢

namespace Machine

/-- What comes next is no instruction of a kind. It may be no instruction at all. -/
def Avoids (machine : Machine) (kind : Instruction → Bool) : Prop :=
  ∀ instruction, machine.instruction = .ok instruction → kind instruction = false

/-- An instruction of another kind is avoided where it comes next. -/
theorem avoids_of_instruction {machine : Machine} {instruction : Instruction}
    {kind : Instruction → Bool} (found : machine.instruction = .ok instruction)
    (other : kind instruction = false) : machine.Avoids kind := by
  intro next foundToo
  obtain rfl := Except.ok.inj (found.symm.trans foundToo)
  exact other

/-- An instruction that has not to do with the timers does the same before a tick and after it. -/
theorem perform_tick (machine : Machine) (inputs : Inputs) {instruction : Instruction}
    (free : instruction.timed = false) :
    machine.tick.2.perform inputs instruction =
      (machine.perform inputs instruction).map fun next => next.tick.2 := by
  obtain ⟨delay, sound⟩ := Instruction.ignores_of_not_timed free
  -- A tick puts two parts in the place of others, which depend on nothing but these.
  have ticked {other : Machine} (sameDelay : machine.delay = other.delay)
      (sameSound : machine.sound = other.sound) :
      Part.sound.graft machine.tick.2 (Part.delay.graft machine.tick.2 other) = other.tick.2 := by
    simp only [Part.graft, tick, sameDelay, sameSound]
  rw [← ticked rfl rfl, perform_graft _ _ _ sound, perform_graft _ _ _ delay]
  cases performed : machine.perform inputs instruction with
  | error fault => rfl
  | ok next =>
    have sameDelay : machine.delay = next.delay := perform_untouched performed .delay delay.2
    have sameSound : machine.sound = next.sound := perform_untouched performed .sound sound.2
    exact congrArg Except.ok (ticked sameDelay sameSound)

end Machine

namespace Interpreter

open Instruction (timed keyed)

/-- A tick before a step leaves what it leaves after the step, unless the step has to do with the
timers. -/
theorem step_tick {interpreter : Interpreter} (free : interpreter.machine.Avoids timed)
    (random : UInt8) :
    interpreter.tick.2.step random =
      (interpreter.step random).map id fun after => after.tick.2 := by
  refine step_map (fun before => before.tick.2) (fun machine => machine.tick.2) ?_ ?_ ?_ ?_
  · intro machine
    rfl
  · exact Machine.instruction_congr rfl rfl
  · intro instruction found
    exact interpreter.machine.perform_tick _ (free instruction found)
  · intro machine
    rfl

/-- A step leaves the sound timer as it is, unless it has to do with the timers. -/
theorem sound_step {interpreter : Interpreter} (free : interpreter.machine.Avoids timed)
    (random : UInt8) :
    (interpreter.step random).2.machine.sound = interpreter.machine.sound := by
  obtain ⟨fault, -, same⟩ | ⟨instruction, next, found, performed, same⟩ :=
    interpreter.step_cases random
  · rw [same]
  · obtain ⟨-, -, unwritten⟩ := Instruction.ignores_of_not_timed (free instruction found)
    rw [same]
    exact (Machine.perform_untouched performed .sound unwritten).symm

/-- A key that is set before a step is as well set after it, unless the step looks at the keys. -/
theorem step_setKey {interpreter : Interpreter} (free : interpreter.machine.Avoids keyed)
    (random byte : UInt8) (isDown : Bool) :
    (interpreter.setKey byte isDown).2.step random =
      (interpreter.step random).map id fun after => (after.setKey byte isDown).2 := by
  refine step_map (fun before => (before.setKey byte isDown).2) id ?_ rfl ?_ fun _ => rfl
  · intro machine
    unfold setKey
    cases Key.ofByte byte <;> rfl
  · intro instruction found
    rw [Except.map_id]
    refine interpreter.machine.perform_congr_inputs ?_ ?_ rfl
    · intro keyed
      rw [free instruction found] at keyed
      cases keyed
    · intro _ _ _ _
      exact congrArg Settings.edge (interpreter.settings_setKey byte isDown)

/-- The answer to a key event depends on the key alone. -/
theorem setKey_reply (left right : Interpreter) (byte : UInt8) (isDown : Bool) :
    (left.setKey byte isDown).1 = (right.setKey byte isDown).1 := by
  unfold setKey
  cases Key.ofByte byte <;> rfl

/-- Along some steps, what comes next is never an instruction of a kind. -/
def StepsAvoid (kind : Instruction → Bool) : Interpreter → List UInt8 → Prop
  | _, [] => True
  | interpreter, random :: rest =>
    interpreter.machine.Avoids kind ∧ StepsAvoid kind (interpreter.step random).2 rest

/-- It makes no difference whether an event comes before some commands or after them. -/
structure Passes (interpreter : Interpreter) (event : Command) (commands : List Command) :
    Prop where
  /-- The commands are answered as they are without the event. -/
  replies : (interpreter.apply event).2.transcript commands = interpreter.transcript commands
  /-- The event is answered as it is without the commands. -/
  reply : ((interpreter.applyAll commands).apply event).1 = (interpreter.apply event).1
  /-- What is left is the same. -/
  left : (interpreter.apply event).2.applyAll commands =
    ((interpreter.applyAll commands).apply event).2

end Interpreter

/-- A step takes no notice of an event, nor the event of the step, unless the instruction is of a
kind. -/
structure Command.Unnoticed (event : Command) (kind : Instruction → Bool) : Prop where
  /-- The event does not decide what comes next. -/
  instruction : ∀ interpreter : Interpreter,
    (interpreter.apply event).2.machine.instruction = interpreter.machine.instruction
  /-- The step answers the same after the event, and what it leaves is what the event leaves after
  the step. -/
  step : ∀ (interpreter : Interpreter) random, interpreter.machine.Avoids kind →
    (interpreter.apply event).2.step random =
      (interpreter.step random).map id fun after => (after.apply event).2
  /-- The event is answered the same after the step. -/
  reply : ∀ (interpreter : Interpreter) random, interpreter.machine.Avoids kind →
    ((interpreter.step random).2.apply event).1 = (interpreter.apply event).1

namespace Command.Unnoticed

variable {event : Command} {kind : Instruction → Bool}

/-- A tick and a step that has not to do with the timers take no notice of each other. -/
theorem tick : Command.tick.Unnoticed Instruction.timed where
  instruction _ := Machine.instruction_congr rfl rfl
  step _ random free := Interpreter.step_tick free random
  reply interpreter random free := by
    show Reply.ticked (if (interpreter.step random).2.machine.sound = 1 then .beep else .silent) = _
    rw [Interpreter.sound_step free]
    rfl

/-- A key that is put down and a step that does not look at the keys take no notice of each
other. -/
theorem press (key : UInt8) : (Command.press key).Unnoticed Instruction.keyed where
  instruction interpreter := congrArg Machine.instruction (interpreter.machine_setKey key true)
  step _ random free := Interpreter.step_setKey free random key true
  reply _ _ _ := congrArg Reply.keySet (Interpreter.setKey_reply _ _ key true)

/-- Nor do a key that is let go of and such a step. -/
theorem release (key : UInt8) : (Command.release key).Unnoticed Instruction.keyed where
  instruction interpreter := congrArg Machine.instruction (interpreter.machine_setKey key false)
  step _ random free := Interpreter.step_setKey free random key false
  reply _ _ _ := congrArg Reply.keySet (Interpreter.setKey_reply _ _ key false)

/-- An unnoticed event does not decide of what kind the next instruction is. -/
theorem avoids_iff (unnoticed : event.Unnoticed kind) (interpreter : Interpreter) :
    (interpreter.apply event).2.machine.Avoids kind ↔ interpreter.machine.Avoids kind := by
  unfold Machine.Avoids
  rw [unnoticed.instruction]

/-- Nor of what kind the instructions are along some steps. -/
theorem stepsAvoid_iff (unnoticed : event.Unnoticed kind) (interpreter : Interpreter)
    (randoms : List UInt8) :
    (interpreter.apply event).2.StepsAvoid kind randoms ↔
      interpreter.StepsAvoid kind randoms := by
  induction randoms generalizing interpreter with
  | nil => exact Iff.rfl
  | cons random rest ih =>
    rw [Interpreter.StepsAvoid, Interpreter.StepsAvoid, unnoticed.avoids_iff]
    refine and_congr_right fun free => ?_
    rw [unnoticed.step interpreter random free]
    exact ih (interpreter.step random).2

/-- An unnoticed event passes any number of steps of other instructions. -/
theorem passes (unnoticed : event.Unnoticed kind) {interpreter : Interpreter}
    {randoms : List UInt8} (free : interpreter.StepsAvoid kind randoms) :
    interpreter.Passes event (randoms.map .step) := by
  induction randoms generalizing interpreter with
  | nil => exact ⟨rfl, rfl, rfl⟩
  | cons random rest ih =>
    obtain ⟨here, later⟩ := free
    have moved := unnoticed.step interpreter random here
    have stepped : (interpreter.apply event).2.apply (.step random) =
        ((interpreter.apply (.step random)).1,
          ((interpreter.apply (.step random)).2.apply event).2) := by
      show ((interpreter.apply event).2.step random).map Reply.stepped id = _
      rw [moved]
      rfl
    have behind := ih later
    constructor
    · rw [List.map_cons, Interpreter.transcript, Interpreter.transcript, stepped]
      exact congrArg (List.cons _) behind.replies
    · exact behind.reply.trans (unnoticed.reply interpreter random here)
    · show ((interpreter.apply event).2.apply (.step random)).2.applyAll _ = _
      rw [stepped]
      exact behind.left

end Command.Unnoticed

namespace Interpreter

open Instruction (timed keyed)

/-- A tick may come before or after any number of steps whose instructions have not to do with the
timers, and a key event, of whatever key, before or after any number of steps whose instructions do
not look at the keys: all replies and what is left are the same. Whether the steps are of that sort
does not depend on where the event comes, and one such step is no more than the least case of it. -/
theorem events_pass_steps (interpreter : Interpreter) :
    (∀ random, interpreter.machine.Avoids timed → interpreter.Passes .tick [.step random]) ∧
    (∀ random key, interpreter.machine.Avoids keyed →
      interpreter.Passes (.press key) [.step random] ∧
        interpreter.Passes (.release key) [.step random]) ∧
    (∀ randoms, interpreter.StepsAvoid timed randoms →
      interpreter.Passes .tick (randoms.map .step)) ∧
    (∀ randoms key, interpreter.StepsAvoid keyed randoms →
      interpreter.Passes (.press key) (randoms.map .step) ∧
        interpreter.Passes (.release key) (randoms.map .step)) ∧
    (∀ randoms, interpreter.tick.2.StepsAvoid timed randoms ↔
      interpreter.StepsAvoid timed randoms) ∧
    ∀ randoms key isDown, (interpreter.setKey key isDown).2.StepsAvoid keyed randoms ↔
      interpreter.StepsAvoid keyed randoms := by
  refine ⟨?_, ?_, ?_, ?_, ?_, ?_⟩
  · intro random free
    have steps : interpreter.StepsAvoid timed [random] := ⟨free, trivial⟩
    exact Command.Unnoticed.tick.passes steps
  · intro random key free
    have steps : interpreter.StepsAvoid keyed [random] := ⟨free, trivial⟩
    constructor
    · exact (Command.Unnoticed.press key).passes steps
    · exact (Command.Unnoticed.release key).passes steps
  · intro randoms steps
    exact Command.Unnoticed.tick.passes steps
  · intro randoms key steps
    constructor
    · exact (Command.Unnoticed.press key).passes steps
    · exact (Command.Unnoticed.release key).passes steps
  · intro randoms
    exact Command.Unnoticed.tick.stepsAvoid_iff interpreter randoms
  · intro randoms key isDown
    cases isDown with
    | true => exact (Command.Unnoticed.press key).stepsAvoid_iff interpreter randoms
    | false => exact (Command.Unnoticed.release key).stepsAvoid_iff interpreter randoms

/-- An interpreter whose program has asked for the shortest sound and waits for a key. -/
def hushed : Interpreter :=
  (powerOn .standard).applyAll [.load [0x61, 0x01, 0xF1, 0x18, 0xF2, 0x0A], .step 0, .step 0]

/-- The interpreter before the two steps in which its program asks for the sound. -/
def hushing : Interpreter := ((powerOn .standard).load [0x61, 0x01, 0xF1, 0x18, 0xF2, 0x0A]).2

/-- The tick that sounds the buzzer may come before the program has looked for a key, or after. The
key may be put down, and let go of, before the program has asked for the sound, or after. -/
theorem events_pass_steps_hushed :
    hushed.tick.1 = .beep ∧ hushed.machine.instruction = .ok (.awaitKey 2) ∧
      hushed.Passes .tick [.step 0] ∧
      hushing.machine.instruction = .ok (.load 1 1) ∧
      (hushing.step 0).2.machine.instruction = .ok (.setSound 1) ∧
      hushing.Passes (.press 7) [.step 0, .step 0] ∧
      hushing.Passes (.release 7) [.step 0, .step 0] := by
  have loads : hushing.machine.instruction = .ok (.load 1 1) :=
    instruction_load_powerOn _ (by decide) rfl
  obtain ⟨sounds, waits, beeps⟩ :
      (hushing.step 0).2.machine.instruction = .ok (.setSound 1) ∧
        hushed.machine.instruction = .ok (.awaitKey 2) ∧ hushed.tick.1 = .beep := by
    decide +kernel
  have timeless : hushed.machine.Avoids timed := Machine.avoids_of_instruction waits rfl
  have keyless : hushing.StepsAvoid keyed [0, 0] :=
    ⟨Machine.avoids_of_instruction loads rfl, Machine.avoids_of_instruction sounds rfl, trivial⟩
  obtain ⟨ticks, -⟩ := hushed.events_pass_steps
  obtain ⟨-, -, -, keys, -⟩ := hushing.events_pass_steps
  obtain ⟨presses, releases⟩ := keys [0, 0] 7 keyless
  exact ⟨beeps, waits, ticks 0 timeless, loads, sounds, presses, releases⟩

end Interpreter

end Chip8
