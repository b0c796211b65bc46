import Chip8.Proofs.Transcript
import Chip8.Proofs.Waiting

/-!
# What the timers remember

A timer holds the value last written to it less the ticks since, and never less than zero. Only the
one instruction that sets it writes a timer, and only a tick counts it down, so nothing else that a
program or its host does can hasten or delay it, short of a reset. The buzzer therefore sounds at
one tick for each positive value that is written to the sound timer and left to run out, and at no
other.
-/

namespace Chip8

/-- One of the two timers. -/
inductive Timer
  /-- The timer that programs read. -/
  | delay
  /-- The timer that sounds the buzzer as it runs out. -/
  | sound
  deriving DecidableEq

namespace Timer

/-- The ticks left on a timer. -/
def left : Timer → Machine → UInt8
  | .delay, machine => machine.delay
  | .sound, machine => machine.sound

/-- The part of the machine that a timer is. -/
def part : Timer → Part
  | .delay => .delay
  | .sound => .sound

/-- The register that an instruction writes to a timer. -/
def source? : Timer → Instruction → Option Register
  | .delay, .setDelay x => some x
  | .sound, .setSound x => some x
  | _, _ => none

/-- The value that a command writes to a timer, which it does if it is a step that says that it
executed the instruction for it. -/
def written? (timer : Timer) (interpreter : Interpreter) (command : Command) : Option UInt8 :=
  match (interpreter.apply command).1 with
  | .stepped (.ok (.executed instruction)) =>
    (timer.source? instruction).map interpreter.machine.register
  | _ => none

/-- The values that a list of commands writes to a timer, in order. -/
def writes (timer : Timer) : Interpreter → List Command → List UInt8
  | _, [] => []
  | interpreter, command :: rest =>
    (timer.written? interpreter command).toList ++ timer.writes (interpreter.apply command).2 rest

/-- The last value that some commands write to a timer, unless there is a reset after it, and the
number of ticks since. -/
def LastWrite (timer : Timer) (start : Interpreter) (commands : List Command) (value : UInt8)
    (ticks : Nat) : Prop :=
  ∃ before command after, commands = before ++ command :: after ∧
    timer.written? (start.applyAll before) command = some value ∧
    timer.writes (start.applyAll (before ++ [command])) after = [] ∧
    .reset ∉ after ∧ after.count .tick = ticks

/-- What commands write after other commands comes after what those write. -/
theorem writes_append (timer : Timer) (interpreter : Interpreter) (first second : List Command) :
    timer.writes interpreter (first ++ second) =
      timer.writes interpreter first ++ timer.writes (interpreter.applyAll first) second := by
  induction first generalizing interpreter with
  | nil => rfl
  | cons command rest ih =>
    rw [List.cons_append, writes, writes, ih, List.append_assoc]
    rfl

/-- An instruction that writes a timer does so from a register, and is no wait for a key. -/
theorem exists_source_of_mem_writes {timer : Timer} {instruction : Instruction}
    (writes : timer.part ∈ instruction.writes) :
    ∃ x, timer.source? instruction = some x ∧ ∀ y, instruction ≠ .awaitKey y := by
  cases timer <;> cases instruction <;> simp [part, source?, Instruction.writes] at writes ⊢

/-- A machine that shares the part of a timer with another has as many ticks left on it. -/
theorem left_of_same {timer : Timer} {machine next : Machine}
    (same : timer.part.Same machine next) : timer.left next = timer.left machine := by
  cases timer with
  | delay => exact Eq.symm same
  | sound => exact Eq.symm same

/-- An instruction that sets a timer sets it to the register it names. -/
theorem left_of_source {timer : Timer} {machine next : Machine} {inputs : Inputs}
    {instruction : Instruction} {x : Register} (source : timer.source? instruction = some x)
    (performed : machine.perform inputs instruction = .ok next) :
    timer.left next = machine.register x := by
  unfold source? at source
  split at source
  case h_1 =>
    cases source
    obtain rfl := Except.ok.inj performed
    rfl
  case h_2 =>
    cases source
    obtain rfl := Except.ok.inj performed
    rfl
  case h_3 => cases source

variable {timer : Timer} {interpreter : Interpreter} {command : Command}

/-- A command that writes a timer leaves it at the value. -/
theorem left_of_written {value : UInt8}
    (written : timer.written? interpreter command = some value) :
    timer.left (interpreter.apply command).2.machine = value := by
  unfold written? at written
  split at written
  case h_1 instruction reply =>
    obtain ⟨x, source, rfl⟩ := Option.map_eq_some_iff.mp written
    cases command with
    | step random =>
      have executed : (interpreter.step random).1 = .ok (.executed instruction) :=
        Reply.stepped.inj reply
      show timer.left (interpreter.step random).2.machine = _
      obtain ⟨fault, -, same⟩ | ⟨found, next, -, performed, same⟩ := interpreter.step_cases random
      · rw [same] at executed
        cases executed
      · rw [same] at executed ⊢
        cases awaiting : next.awaiting with
        | none =>
          rw [awaiting] at executed
          cases executed
          exact left_of_source source performed
        | some y =>
          rw [awaiting] at executed
          cases executed
    | _ => cases reply
  case h_2 => cases written

/-- A step that does not execute an instruction writes no timer. -/
theorem written?_of_idle {random : UInt8}
    (idle : ∀ instruction, (interpreter.step random).1 ≠ .ok (.executed instruction)) :
    timer.written? interpreter (.step random) = none := by
  unfold written?
  split
  case h_1 instruction reply => exact absurd (Reply.stepped.inj reply) (idle instruction)
  case h_2 => rfl

/-- A step that does not write a timer leaves it as it is, because a step that executes the
instruction for it says so. -/
theorem left_step (reachable : interpreter.Reachable) {random : UInt8}
    (silent : timer.written? interpreter (.step random) = none) :
    timer.left (interpreter.step random).2.machine = timer.left interpreter.machine := by
  obtain ⟨fault, -, same⟩ | ⟨instruction, next, found, performed, same⟩ :=
    interpreter.step_cases random
  · rw [same]
  · by_cases writes : timer.part ∈ instruction.writes
    · obtain ⟨x, source, goesOn⟩ := exists_source_of_mem_writes writes
      have executed := reachable.step_of_perform found goesOn performed
      have reply : (interpreter.apply (.step random)).1 =
          .stepped (.ok (.executed instruction)) := by
        show Reply.stepped (interpreter.step random).1 = _
        rw [executed]
      rw [written?, reply] at silent
      simp [source] at silent
    · rw [same]
      exact left_of_same (Machine.perform_untouched performed timer.part writes)

/-- A tick takes one from a timer, unless there is nothing left. -/
theorem toNat_left_tick (timer : Timer) (machine : Machine) :
    (timer.left machine.tick.2).toNat = (timer.left machine).toNat - 1 := by
  have counted (byte : UInt8) : (if byte = 0 then 0 else byte - 1).toNat = byte.toNat - 1 := by
    by_cases zero : byte = 0
    · rw [if_pos zero, zero]
      rfl
    · have some : byte.toNat ≠ 0 := fun same => zero (UInt8.toNat_inj.mp same)
      have one : (1 : UInt8) ≤ byte := UInt8.le_iff_toNat_le.mpr (Nat.pos_of_ne_zero some)
      rw [if_neg zero, UInt8.toNat_sub_of_le _ _ one]
      rfl
  cases timer with
  | delay => exact counted machine.delay
  | sound => exact counted machine.sound

/-- A command that neither resets the machine nor writes a timer counts it down if it is a tick, and
otherwise leaves it as it is. -/
theorem toNat_left_apply (reachable : interpreter.Reachable) (goesOn : command ≠ .reset)
    (silent : timer.written? interpreter command = none) :
    (timer.left (interpreter.apply command).2.machine).toNat =
      (timer.left interpreter.machine).toNat - [command].count .tick := by
  have kept {machine : Machine} (same : machine = interpreter.machine) :
      (timer.left machine).toNat = (timer.left interpreter.machine).toNat - 0 := by
    rw [same, Nat.sub_zero]
  cases command with
  | load program =>
    obtain ⟨memory, same⟩ := interpreter.machine_load program
    have left : timer.left (interpreter.load program).2.machine =
        timer.left interpreter.machine := by
      rw [same]
      cases timer <;> rfl
    exact congrArg UInt8.toNat left
  | reset => exact absurd rfl goesOn
  | step random => exact congrArg UInt8.toNat (left_step reachable silent)
  | passOver => cases timer <;> rfl
  | tick => exact toNat_left_tick timer interpreter.machine
  | press key => exact kept (interpreter.machine_setKey key true)
  | release key => exact kept (interpreter.machine_setKey key false)
  | takeFrame =>
    show (timer.left interpreter.takeFrame.2.machine).toNat = _
    rw [interpreter.takeFrame_cases]
    cases timer <;> rfl

/-- Commands that neither reset the machine nor write a timer take their ticks from it. -/
theorem toNat_left_applyAll (reachable : interpreter.Reachable) {commands : List Command}
    (goesOn : .reset ∉ commands) (silent : timer.writes interpreter commands = []) :
    (timer.left (interpreter.applyAll commands).machine).toNat =
      (timer.left interpreter.machine).toNat - commands.count .tick := by
  induction commands generalizing interpreter with
  | nil => rfl
  | cons command rest ih =>
    rw [List.mem_cons, not_or] at goesOn
    rw [writes, List.append_eq_nil_iff, Option.toList_eq_nil_iff] at silent
    have first := toNat_left_apply reachable (Ne.symm goesOn.1) silent.1
    have later := ih (reachable.apply command) goesOn.2 silent.2
    have counted : ([command] ++ rest).count .tick = [command].count .tick + rest.count .tick :=
      List.count_append
    rw [first, Nat.sub_sub, ← counted] at later
    exact later

variable {start : Interpreter} {commands : List Command} {value : UInt8} {ticks : Nat}

/-- A timer holds the value last written to it less the ticks since. -/
theorem LastWrite.left (last : timer.LastWrite start commands value ticks)
    (reachable : start.Reachable) :
    (timer.left (start.applyAll commands).machine).toNat = value.toNat - ticks := by
  obtain ⟨before, command, after, rfl, written, silent, goesOn, rfl⟩ := last
  have set : timer.left (start.applyAll (before ++ [command])).machine = value := by
    rw [Interpreter.applyAll_append]
    exact left_of_written written
  have counted := toNat_left_applyAll (reachable.applyAll _) goesOn silent
  rw [set, ← Interpreter.applyAll_append, List.append_assoc] at counted
  exact counted

/-- The last write is still the last after a command that neither resets the machine nor writes. -/
theorem LastWrite.snoc (last : timer.LastWrite start commands value ticks)
    (goesOn : command ≠ .reset)
    (silent : timer.written? (start.applyAll commands) command = none) :
    timer.LastWrite start (commands ++ [command]) value (ticks + [command].count .tick) := by
  obtain ⟨before, first, after, rfl, written, unwritten, kept, rfl⟩ := last
  refine ⟨before, first, after ++ [command], by simp, written, ?_, ?_, List.count_append⟩
  · have here : (start.applyAll (before ++ [first])).applyAll after =
        start.applyAll (before ++ first :: after) := by
      rw [← Interpreter.applyAll_append, List.append_assoc]
      rfl
    rw [writes_append, unwritten, here, writes, silent]
    rfl
  · rw [List.mem_append, List.mem_singleton, not_or]
    exact ⟨kept, Ne.symm goesOn⟩

/-- A write is the last one just after it. -/
theorem lastWrite_of_written
    (written : timer.written? (start.applyAll commands) command = some value) :
    timer.LastWrite start (commands ++ [command]) value 0 :=
  ⟨commands, command, [], rfl, written, rfl, List.not_mem_nil, rfl⟩

/-- A timer that has not been written since power-on or the last reset has run out. -/
theorem left_of_no_lastWrite {settings : Settings} (accepted : settings.check = .ok ())
    (none : ∀ value ticks, ¬ timer.LastWrite (.powerOn settings) commands value ticks) :
    (timer.left ((Interpreter.powerOn settings).applyAll commands).machine).toNat = 0 := by
  have reachable := Interpreter.reachable_powerOn accepted
  induction commands using List.reverseRecOn with
  | nil => cases timer <;> rfl
  | append_singleton before command ih =>
    rw [Interpreter.applyAll_append]
    by_cases resets : command = .reset
    · rw [resets]
      cases timer <;> rfl
    · cases written : timer.written? ((Interpreter.powerOn settings).applyAll before) command with
      | some value => exact absurd (lastWrite_of_written written) (none value 0)
      | none =>
        have counted := toNat_left_apply (reachable.applyAll before) resets written
        have out := ih fun value ticks last => none value _ (last.snoc resets written)
        rw [out, Nat.zero_sub] at counted
        exact counted

/-- A timer that has not run out was written since power-on or the last reset. -/
theorem exists_lastWrite {settings : Settings} (accepted : settings.check = .ok ())
    (running : (timer.left ((Interpreter.powerOn settings).applyAll commands).machine).toNat ≠ 0) :
    ∃ value ticks, timer.LastWrite (.powerOn settings) commands value ticks := by
  by_contra none
  refine running (left_of_no_lastWrite accepted ?_)
  intro value ticks last
  exact none ⟨value, ticks, last⟩

end Timer

namespace Interpreter

variable {interpreter : Interpreter}

/-- A tick sounds the buzzer exactly if one tick is left on the sound timer. -/
theorem tick_eq_beep_iff (interpreter : Interpreter) :
    interpreter.tick.1 = .beep ↔ interpreter.machine.sound.toNat = 1 := by
  have one : interpreter.machine.sound = 1 ↔ interpreter.machine.sound.toNat = 1 :=
    UInt8.toNat_inj.symm
  rw [← one]
  show (if interpreter.machine.sound = 1 then Sound.beep else .silent) = .beep ↔ _
  simp

/-- Only a tick is heard. -/
theorem tickSounds_apply (interpreter : Interpreter) (command : Command) :
    tickSounds [⟨command, (interpreter.apply command).1⟩] =
      if command = .tick then [interpreter.tick.1] else [] := by
  cases command <;> rfl

/-- The number of beeps that a machine has yet to give if nothing more is written to its timer. -/
def beepsToCome (interpreter : Interpreter) : Nat := min interpreter.machine.sound.toNat 1

/-- The number of positive values among some. -/
def positive (values : List UInt8) : Nat := values.countP (0 < ·)

/-- A tick gives at most the beep that was to come. -/
theorem beeps_tick (interpreter : Interpreter) :
    [interpreter.tick.1].count .beep + interpreter.tick.2.beepsToCome ≤
      interpreter.beepsToCome := by
  have counted := Timer.toNat_left_tick .sound interpreter.machine
  have after : interpreter.tick.2.machine.sound.toNat = interpreter.machine.sound.toNat - 1 :=
    counted
  have heard : [interpreter.tick.1].count .beep =
      if interpreter.machine.sound.toNat = 1 then 1 else 0 := by
    simp only [List.count_singleton, beq_iff_eq, interpreter.tick_eq_beep_iff]
  unfold beepsToCome
  rw [after, heard]
  split <;> omega

/-- A command gives a beep only if that was to come, and only a positive value written to the sound
timer makes one come. -/
theorem Reachable.beeps_apply (reachable : interpreter.Reachable) (command : Command) :
    (tickSounds [⟨command, (interpreter.apply command).1⟩]).count .beep +
        (interpreter.apply command).2.beepsToCome ≤
      positive (Timer.sound.written? interpreter command).toList + interpreter.beepsToCome := by
  rw [tickSounds_apply]
  by_cases ticks : command = .tick
  · subst ticks
    rw [if_pos rfl]
    exact Nat.le_trans interpreter.beeps_tick (Nat.le_add_left _ _)
  · rw [if_neg ticks, List.count_nil, Nat.zero_add]
    by_cases resets : command = .reset
    · subst resets
      exact Nat.zero_le _
    · cases written : Timer.sound.written? interpreter command with
      | some value =>
        have set : (interpreter.apply command).2.machine.sound = value :=
          Timer.left_of_written written
        have counted : positive [value] = min value.toNat 1 := by
          have some : 0 < value ↔ 0 < value.toNat := UInt8.lt_iff_toNat_lt
          rw [positive, List.countP_singleton]
          simp only [decide_eq_true_eq, some]
          split <;> omega
        rw [beepsToCome, set, Option.toList_some, counted]
        exact Nat.le_add_right _ _
      | none =>
        have kept := Timer.toNat_left_apply reachable resets written
        have same : (interpreter.apply command).2.machine.sound.toNat =
            interpreter.machine.sound.toNat - [command].count .tick := kept
        rw [beepsToCome, same, beepsToCome, List.count_singleton]
        simp [ticks, positive]

/-- Over any commands there are no more beeps than positive values written to the sound timer, but
for one that was to come at the start. -/
theorem Reachable.beeps_transcript (reachable : interpreter.Reachable) (commands : List Command) :
    (tickSounds (interpreter.transcript commands)).count .beep +
        (interpreter.applyAll commands).beepsToCome ≤
      positive (Timer.sound.writes interpreter commands) + interpreter.beepsToCome := by
  induction commands generalizing interpreter with
  | nil => exact Nat.le_refl _
  | cons command rest ih =>
    have first := reachable.beeps_apply command
    have later := ih (reachable.apply command)
    have heard : tickSounds (interpreter.transcript (command :: rest)) =
        tickSounds [⟨command, (interpreter.apply command).1⟩] ++
          tickSounds ((interpreter.apply command).2.transcript rest) :=
      tickSounds_append [_] _
    have counted : positive (Timer.sound.writes interpreter (command :: rest)) =
        positive (Timer.sound.written? interpreter command).toList +
          positive (Timer.sound.writes (interpreter.apply command).2 rest) :=
      List.countP_append
    have moved : interpreter.applyAll (command :: rest) =
        (interpreter.apply command).2.applyAll rest := rfl
    rw [heard, counted, moved, List.count_append]
    omega

/-- The buzzer sounds once for each value that is left to run out. A tick is a beep exactly if the
last write to the sound timer since power-on or the last reset was of a positive value, and the tick
is that many ticks after it; there are no more beeps than positive values written; and a step that
does not execute an instruction leaves both timers as they are. A timer holds the value last written
to it less the ticks since, or zero once those are as many, and zero too if nothing was written. -/
theorem timers_of_last_write {settings : Settings} (accepted : settings.check = .ok ())
    (commands : List Command) :
    (((powerOn settings).applyAll commands).tick.1 = .beep ↔
      ∃ value ticks, Timer.sound.LastWrite (powerOn settings) commands value ticks ∧
        0 < value.toNat ∧ ticks + 1 = value.toNat) ∧
    (tickSounds ((powerOn settings).transcript commands)).count .beep ≤
      (Timer.sound.writes (powerOn settings) commands).countP (0 < ·) ∧
    (∀ random, (∀ instruction, (((powerOn settings).applyAll commands).step random).1 ≠
        .ok (.executed instruction)) →
      ∀ timer : Timer,
        timer.left ((powerOn settings).applyAll (commands ++ [.step random])).machine =
          timer.left ((powerOn settings).applyAll commands).machine) ∧
    ∀ timer : Timer,
      (∀ value ticks, timer.LastWrite (powerOn settings) commands value ticks →
        (timer.left ((powerOn settings).applyAll commands).machine).toNat = value.toNat - ticks) ∧
      ((∀ value ticks, ¬ timer.LastWrite (powerOn settings) commands value ticks) →
        (timer.left ((powerOn settings).applyAll commands).machine).toNat = 0) := by
  have reachable := reachable_powerOn accepted
  refine ⟨?_, ?_, ?_, ?_⟩
  · rw [tick_eq_beep_iff]
    constructor
    · intro one
      have running : (Timer.sound.left ((powerOn settings).applyAll commands).machine).toNat ≠ 0 :=
        fun out => Nat.one_ne_zero (one.symm.trans out)
      obtain ⟨value, ticks, last⟩ := Timer.exists_lastWrite accepted running
      have due : 1 = value.toNat - ticks := one.symm.trans (last.left reachable)
      exact ⟨value, ticks, last, by omega, by omega⟩
    · rintro ⟨value, ticks, last, -, due⟩
      refine (last.left reachable).trans ?_
      omega
  · have bound := reachable.beeps_transcript commands
    exact Nat.le_trans (Nat.le_add_right _ _) bound
  · intro random idle timer
    rw [applyAll_append]
    exact Timer.left_step (reachable.applyAll commands) (Timer.written?_of_idle idle)
  · intro timer
    exact ⟨fun value ticks last => last.left reachable, Timer.left_of_no_lastWrite accepted⟩

/-- A program that writes two to the sound timer, and then waits for a key while one tick passes. -/
def shortTone : List Command :=
  [.load [0x60, 0x02, 0xF0, 0x18, 0xF3, 0x0A], .step 0, .step 0, .tick, .step 0, .press 3]

/-- The buzzer sounds at the next tick, the second after the write. -/
theorem timers_of_last_write_short :
    Settings.standard.check = .ok () ∧ ((powerOn .standard).applyAll shortTone).tick.1 = .beep := by
  have accepted : Settings.standard.check = .ok () := rfl
  have writes : Timer.sound.written? ((powerOn .standard).applyAll (shortTone.take 2))
        (.step 0) = some 2 ∧
      Timer.sound.writes ((powerOn .standard).applyAll (shortTone.take 3)) (shortTone.drop 3) =
        [] := by
    decide +kernel
  have last : Timer.sound.LastWrite (powerOn .standard) shortTone 2 1 :=
    ⟨shortTone.take 2, .step 0, shortTone.drop 3, rfl, writes.1, writes.2, by decide, by decide⟩
  obtain ⟨beeps, -⟩ := timers_of_last_write accepted shortTone
  exact ⟨accepted, beeps.mpr ⟨2, 1, last, by decide, by decide⟩⟩

end Interpreter

end Chip8
