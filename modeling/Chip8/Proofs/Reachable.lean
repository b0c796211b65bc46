import Chip8.Proofs.Cycle

/-!
# Reachable interpreters

An interpreter is reachable when a host can come by it: it is made with settings under which it can
run, and any commands follow, whether they succeed or fail. `Reachable.invariant` is the one
induction over them: what a machine has at power-on and every command keeps, all reachable ones
have.
-/

namespace Chip8.Interpreter

/-- The interpreters that a host can come by. -/
inductive Reachable : Interpreter → Prop
  /-- The interpreter with the settings in use when none are given. -/
  | standard : Reachable (powerOn .standard)
  /-- An interpreter with settings that are accepted. -/
  | create {settings : Settings} {interpreter : Interpreter}
    (created : create settings = .ok interpreter) : Reachable interpreter
  /-- What a command leaves of an interpreter that the host has. -/
  | apply {interpreter : Interpreter} (reachable : Reachable interpreter) (command : Command) :
    Reachable (interpreter.apply command).2

/-- Settings that are accepted give the interpreter at power-on. -/
theorem create_eq_ok_iff (settings : Settings) (interpreter : Interpreter) :
    create settings = .ok interpreter ↔
      settings.check = .ok () ∧ interpreter = powerOn settings := by
  unfold create
  cases settings.check with
  | error fault => simp [Except.map]
  | ok accepted => simp [Except.map, eq_comm]

/-- Settings that are accepted give a reachable interpreter at power-on. -/
theorem reachable_powerOn {settings : Settings} (accepted : settings.check = .ok ()) :
    (powerOn settings).Reachable :=
  .create ((create_eq_ok_iff settings _).mpr ⟨accepted, rfl⟩)

/-- What holds of the machine at power-on, and is kept by a load into a reachable interpreter that
has no program, by every instruction that is performed and by every other thing the host does, holds
of all reachable machines. It may depend on whether a program is loaded. -/
theorem Reachable.invariant {motive : Bool → Machine → Prop} (initial : motive false .initial)
    (load : ∀ interpreter program, Reachable interpreter → interpreter.loaded = false →
      program.length ≤ 3584 → motive false interpreter.machine →
      motive true { interpreter.machine with
        memory := ⟨overwrite 512 program interpreter.machine.memory.bytes⟩ })
    (perform : ∀ loaded (machine next : Machine) inputs instruction,
      machine.instruction = .ok instruction → machine.perform inputs instruction = .ok next →
      motive loaded machine → motive loaded next)
    (passOver : ∀ loaded machine, motive loaded machine → motive loaded machine.passOver)
    (tick : ∀ loaded machine, motive loaded machine → motive loaded machine.tick.2)
    (take : ∀ loaded machine, motive loaded machine →
      motive loaded { machine with redraw := false })
    {interpreter : Interpreter} (reachable : Reachable interpreter) :
    motive interpreter.loaded interpreter.machine := by
  induction reachable with
  | standard => exact initial
  | create created =>
    obtain ⟨-, rfl⟩ := (create_eq_ok_iff _ _).mp created
    exact initial
  | @apply interpreter reached command ih =>
    cases command with
    | load program =>
      show motive (interpreter.load program).2.loaded (interpreter.load program).2.machine
      obtain ⟨fault, same⟩ | ⟨empty, small, same⟩ := interpreter.load_cases program
      · rw [same]
        exact ih
      · rw [same]
        rw [empty] at ih
        exact load _ program reached empty small ih
    | reset => exact initial
    | step random =>
      show motive (interpreter.step random).2.loaded (interpreter.step random).2.machine
      obtain ⟨fault, -, same⟩ | ⟨instruction, next, found, performed, same⟩ :=
        interpreter.step_cases random
      · rw [same]
        exact ih
      · rw [same]
        exact perform _ _ _ _ _ found performed ih
    | passOver => exact passOver _ _ ih
    | tick => exact tick _ _ ih
    | press key =>
      show motive (interpreter.setKey key true).2.loaded (interpreter.setKey key true).2.machine
      obtain ⟨keys, same⟩ := interpreter.setKey_cases key true
      rw [same]
      exact ih
    | release key =>
      show motive (interpreter.setKey key false).2.loaded (interpreter.setKey key false).2.machine
      obtain ⟨keys, same⟩ := interpreter.setKey_cases key false
      rw [same]
      exact ih
    | takeFrame =>
      show motive interpreter.takeFrame.2.loaded interpreter.takeFrame.2.machine
      rw [interpreter.takeFrame_cases]
      exact take _ _ ih

/-- Loading a program, or refusing to, leads from a reachable interpreter to a reachable one. -/
theorem Reachable.afterLoad {interpreter : Interpreter} (reachable : Reachable interpreter)
    (program : List UInt8) : Reachable (interpreter.load program).2 :=
  reachable.apply (.load program)

/-- So does a step. -/
theorem Reachable.afterStep {interpreter : Interpreter} (reachable : Reachable interpreter)
    (random : UInt8) : Reachable (interpreter.step random).2 :=
  reachable.apply (.step random)

/-- Commands after commands are one list of commands. -/
theorem applyAll_append (interpreter : Interpreter) (first second : List Command) :
    interpreter.applyAll (first ++ second) = (interpreter.applyAll first).applyAll second :=
  List.foldl_append

/-- Any number of commands lead from a reachable interpreter to a reachable one. -/
theorem Reachable.applyAll {interpreter : Interpreter} (reachable : Reachable interpreter)
    (commands : List Command) : Reachable (interpreter.applyAll commands) := by
  induction commands generalizing interpreter with
  | nil => exact reachable
  | cons command rest ih => exact ih (reachable.apply command)

end Chip8.Interpreter
