import Chip8.Proofs.Footprint.Cells
import Chip8.Proofs.Unloaded

/-!
# Waiting for a key

A step says that the program waits when the machine it leaves has a register to fill, so an entry
left over from an earlier wait would make it say so of any instruction. There is none: a machine
with a register to fill stands at the instruction that fills it. The host can move the program
counter away, but gives up the wait as it does; and a load, the one command that writes over code,
is only taken while nothing was waited for.
-/

namespace Chip8

/-- Only the instructions that wait for a key have to do with waiting. -/
theorem Instruction.awaiting_mem_writes {instruction : Instruction}
    (writes : .awaiting ∈ instruction.writes) : ∃ x, instruction = .awaitKey x := by
  cases instruction with
  | awaitKey x => exact ⟨x, rfl⟩
  | _ => simp [Instruction.writes] at writes

/-- There is a lowest key unless every key is up. -/
theorem Keys.lowest?_eq_none_iff (keys : Keys) :
    keys.lowest? = none ↔ ∀ key, keys.isDown key = false := by
  simp [lowest?]

/-- If some key is down, there is a lowest one. -/
theorem Keys.exists_lowest? (keys : Keys) {key : Key} (down : keys.isDown key = true) :
    ∃ lowest, keys.lowest? = some lowest ∧ keys.isDown lowest = true ∧
      ∀ other, keys.isDown other = true → lowest ≤ other := by
  cases found : keys.lowest? with
  | none =>
    have up := (keys.lowest?_eq_none_iff).mp found key
    rw [up] at down
    cases down
  | some lowest =>
    obtain ⟨isDown, before, after, parts, above⟩ := List.find?_eq_some_iff_append.mp found
    refine ⟨lowest, rfl, isDown, ?_⟩
    intro other otherDown
    have ascending : (before ++ lowest :: after).Pairwise (· < ·) := by
      rw [← parts]
      exact List.pairwise_lt_finRange 16
    have member : other ∈ before ++ lowest :: after := by
      rw [← parts]
      exact List.mem_finRange other
    obtain early | late := List.mem_append.mp member
    · have up := above other early
      rw [otherDown] at up
      cases up
    · obtain rfl | later := List.mem_cons.mp late
      · exact Nat.le_refl _
      · have tail := (List.pairwise_append.mp ascending).2.1
        exact Nat.le_of_lt ((List.pairwise_cons.mp tail).1 other later)

namespace Machine

/-- A machine that has a register to fill stands at the instruction that fills it. -/
def Attentive (machine : Machine) : Prop :=
  ∀ x, machine.awaiting = some x → machine.instruction = .ok (.awaitKey x)

/-- A machine that waits for nothing is attentive. -/
theorem attentive_of_none {machine : Machine} (idle : machine.awaiting = none) :
    machine.Attentive := by
  intro x awaiting
  rw [idle] at awaiting
  cases awaiting

/-- What an attentive machine leaves waits only if the instruction waits and every key is up. -/
theorem Attentive.waits {machine next : Machine} {inputs : Inputs} {instruction : Instruction}
    (attentive : machine.Attentive) (found : machine.instruction = .ok instruction)
    (performed : machine.perform inputs instruction = .ok next) {x : Register}
    (awaiting : next.awaiting = some x) :
    instruction = .awaitKey x ∧ inputs.keys.lowest? = none ∧
      next = { machine with awaiting := some x } := by
  by_cases waits : .awaiting ∈ instruction.writes
  · obtain ⟨y, rfl⟩ := Instruction.awaiting_mem_writes waits
    obtain ⟨key, -, rfl⟩ | ⟨up, rfl⟩ := of_perform_awaitKey performed
    · cases awaiting
    · cases awaiting
      exact ⟨rfl, up, rfl⟩
  · have kept : machine.awaiting = next.awaiting := perform_untouched performed .awaiting waits
    rw [← kept] at awaiting
    rw [attentive x awaiting] at found
    cases found
    exact absurd (by simp [Instruction.writes]) waits

/-- Performing the instruction at the program counter keeps a machine attentive, because it begins a
wait only where it stays. -/
theorem Attentive.perform {machine next : Machine} {inputs : Inputs} {instruction : Instruction}
    (attentive : machine.Attentive) (found : machine.instruction = .ok instruction)
    (performed : machine.perform inputs instruction = .ok next) : next.Attentive := by
  intro x awaiting
  obtain ⟨rfl, -, rfl⟩ := attentive.waits found performed awaiting
  rw [← found]
  exact instruction_congr rfl rfl

/-- An instruction is carried out: it is performed, the program counter goes where the instruction
leads, no other cell is changed but those that the instruction touches, nothing is waited for, and
if it waits for a key then the lowest key that is down is in its register. -/
structure Completes (machine : Machine) (inputs : Inputs) (instruction : Instruction)
    (next : Machine) : Prop where
  performed : machine.perform inputs instruction = .ok next
  /-- The program counter is at the successor. -/
  pc : next.pc = machine.successor inputs instruction
  /-- As a number it is where the instruction leads, a frame that is drawn is yet to be taken, and a
  cell that is not touched is as it was. -/
  footprint : machine.Footprint inputs.keys instruction next
  idle : next.awaiting = none
  key : ∀ x, instruction = .awaitKey x → ∃ key, inputs.keys.lowest? = some key ∧
    next = { machine.advance.setRegister x key.toByte with awaiting := none }

/-- An instruction that has room, is performed and leaves nothing waited for is carried out. -/
theorem completes_of_idle {machine next : Machine} {inputs : Inputs} {instruction : Instruction}
    (room : machine.HasRoom inputs.keys instruction)
    (performed : machine.perform inputs instruction = .ok next) (idle : next.awaiting = none) :
    machine.Completes inputs instruction next := by
  refine ⟨performed, pc_of_perform performed, footprint_of_perform room performed, idle, ?_⟩
  rintro x rfl
  obtain taken | ⟨-, rfl⟩ := of_perform_awaitKey performed
  · exact taken
  · cases idle

end Machine

namespace Interpreter

/-- A step that comes to a wait while every key is up says so, and notes the register to fill. -/
theorem step_of_up {interpreter : Interpreter} {x : Register}
    (found : interpreter.machine.instruction = .ok (.awaitKey x))
    (up : interpreter.keys.lowest? = none) (random : UInt8) :
    interpreter.step random =
      (.ok (.awaiting x), { interpreter with machine.awaiting := some x }) := by
  have lowest : (interpreter.inputs random).keys.lowest? = none := up
  have performed : interpreter.machine.perform (interpreter.inputs random) (.awaitKey x) =
      .ok { interpreter.machine with awaiting := some x } := by
    rw [Machine.perform, lowest]
  have cycled := (Machine.cycle_eq_ok_iff _ _ _ _).mpr ⟨found, performed⟩
  rw [step, cycled]

/-- A step that comes to a wait while a key is down puts the lowest one into the register. -/
theorem step_of_down {interpreter : Interpreter} {x : Register} {key : Key}
    (found : interpreter.machine.instruction = .ok (.awaitKey x))
    (down : interpreter.keys.lowest? = some key) (random : UInt8) :
    interpreter.step random = (.ok (.executed (.awaitKey x)),
      { interpreter with machine :=
        { interpreter.machine.advance.setRegister x key.toByte with awaiting := none } }) := by
  have lowest : (interpreter.inputs random).keys.lowest? = some key := down
  have performed : interpreter.machine.perform (interpreter.inputs random) (.awaitKey x) =
      .ok { interpreter.machine.advance.setRegister x key.toByte with awaiting := none } := by
    rw [Machine.perform, lowest]
  have cycled := (Machine.cycle_eq_ok_iff _ _ _ _).mpr ⟨found, performed⟩
  rw [step, cycled]

/-- A reachable machine that has a register to fill stands at the instruction that fills it. -/
theorem Reachable.attentive {interpreter : Interpreter} (reachable : interpreter.Reachable) :
    interpreter.machine.Attentive := by
  refine Reachable.invariant (motive := fun _ machine => machine.Attentive)
    ?_ ?_ ?_ ?_ ?_ ?_ reachable
  · exact Machine.attentive_of_none rfl
  · intro interpreter program reachable unloaded _ _
    -- The program may be written over the instruction that waits, but none does yet.
    exact Machine.attentive_of_none (reachable.unloaded unloaded).2
  · intro _ machine next inputs instruction found performed attentive
    exact attentive.perform found performed
  · intro _ machine _
    exact Machine.attentive_of_none rfl
  · intro _ machine attentive
    exact attentive
  · intro _ machine attentive
    exact attentive

/-- A step says that the program waits exactly when its instruction waits and every key is up. -/
theorem Reachable.step_awaiting_iff {interpreter : Interpreter} (reachable : interpreter.Reachable)
    (random : UInt8) (x : Register) :
    (interpreter.step random).1 = .ok (.awaiting x) ↔
      interpreter.machine.instruction = .ok (.awaitKey x) ∧
        ∀ key, interpreter.keys.isDown key = false := by
  rw [← Keys.lowest?_eq_none_iff]
  constructor
  · intro reported
    obtain ⟨fault, -, same⟩ | ⟨instruction, next, found, performed, same⟩ :=
      interpreter.step_cases random
    · rw [same] at reported
      cases reported
    · rw [same] at reported
      cases awaiting : next.awaiting with
      | none =>
        rw [awaiting] at reported
        cases reported
      | some y =>
        rw [awaiting] at reported
        cases reported
        obtain ⟨rfl, up, -⟩ := reachable.attentive.waits found performed awaiting
        exact ⟨found, up⟩
  · rintro ⟨found, up⟩
    rw [step_of_up found up]

/-- A step that succeeds and does not say that the program waits has carried out the instruction
that it names, which is the one at the program counter. -/
theorem Reachable.completes {interpreter after : Interpreter} (reachable : interpreter.Reachable)
    {random : UInt8} {outcome : Outcome} (stepped : interpreter.step random = (.ok outcome, after))
    (goesOn : ∀ x, outcome ≠ .awaiting x) :
    ∃ instruction, outcome = .executed instruction ∧
      interpreter.machine.instruction = .ok instruction ∧
      interpreter.machine.Completes (interpreter.inputs random) instruction after.machine ∧
      after = { interpreter with machine := after.machine } := by
  obtain ⟨fault, -, same⟩ | ⟨instruction, next, found, performed, same⟩ :=
    interpreter.step_cases random
  · rw [stepped] at same
    cases same
  · rw [stepped] at same
    cases awaiting : next.awaiting with
    | none =>
      rw [awaiting] at same
      cases same
      have inside := Machine.pc_le_of_instruction found
      have room := reachable.returnable.hasRoom inside interpreter.keys instruction
      exact ⟨instruction, rfl, found, Machine.completes_of_idle room performed awaiting, rfl⟩
    | some x =>
      rw [awaiting] at same
      cases same
      exact absurd rfl (goesOn x)

/-- An instruction that is performed and does not wait for a key is what the step says was
executed. -/
theorem Reachable.step_of_perform {interpreter : Interpreter} (reachable : interpreter.Reachable)
    {instruction : Instruction} (found : interpreter.machine.instruction = .ok instruction)
    (goesOn : ∀ x, instruction ≠ .awaitKey x) {random : UInt8} {next : Machine}
    (performed : interpreter.machine.perform (interpreter.inputs random) instruction = .ok next) :
    interpreter.step random =
      (.ok (.executed instruction), { interpreter with machine := next }) := by
  have cycled := (Machine.cycle_eq_ok_iff _ _ _ _).mpr ⟨found, performed⟩
  rw [step, cycled]
  cases awaiting : next.awaiting with
  | none => simp only [awaiting]
  | some x =>
    obtain ⟨waits, -, -⟩ := reachable.attentive.waits found performed awaiting
    exact absurd waits (goesOn x)

/-- The steps of a reachable interpreter report truly. A register to fill is the one that the
instruction at the program counter fills; a step says that the program waits for it exactly when
that instruction comes upon a pad with every key up; and what any other step names, if it does not
fault, is the instruction at the program counter, carried out. -/
theorem Reachable.step_reports {interpreter : Interpreter} (reachable : interpreter.Reachable) :
    (∀ x, interpreter.machine.awaiting = some x →
      ∃ inside : interpreter.machine.pc.toNat + 2 ≤ 4096,
        Instruction.ofOpcode?
          (interpreter.machine.memory.opcode interpreter.machine.pc.toNat inside) =
            some (.awaitKey x)) ∧
    (∀ random x, (interpreter.step random).1 = .ok (.awaiting x) ↔
      interpreter.machine.instruction = .ok (.awaitKey x) ∧
        ∀ key, interpreter.keys.isDown key = false) ∧
    (∀ random outcome after, interpreter.step random = (.ok outcome, after) →
      (∀ x, outcome ≠ .awaiting x) →
      ∃ instruction, outcome = .executed instruction ∧
        interpreter.machine.instruction = .ok instruction ∧
        interpreter.machine.Completes (interpreter.inputs random) instruction after.machine ∧
        after = { interpreter with machine := after.machine }) := by
  refine ⟨?_, reachable.step_awaiting_iff, ?_⟩
  · intro x awaiting
    exact (Machine.instruction_eq_ok_iff _ _).mp (reachable.attentive x awaiting)
  · intro random outcome after stepped goesOn
    exact reachable.completes stepped goesOn

/-- An interpreter whose program begins with a wait for a key. -/
def asking : Interpreter := ((powerOn .standard).load [0xF3, 0x0A]).2

/-- It has come upon the wait, and then the key was put down. -/
def answered : Interpreter := asking.applyAll [.step 0, .press 5]

/-- At the first step the program says that it waits. Once the key is down a step carries the wait
out: the key is in the register, and the program counter has moved on. -/
theorem step_reports_wait :
    asking.Reachable ∧ (∀ random, (asking.step random).1 = .ok (.awaiting 3)) ∧
      answered.Reachable ∧ answered.machine.awaiting = some 3 ∧
      ∃ after, answered.step 0 = (.ok (.executed (.awaitKey 3)), after) ∧
        after.machine.register 3 = 5 ∧ after.machine.pc = 0x202 ∧
        after.machine.awaiting = none := by
  have reachable : asking.Reachable := Reachable.standard.afterLoad [0xF3, 0x0A]
  have found : asking.machine.instruction = .ok (.awaitKey 3) :=
    instruction_load_powerOn _ (by decide) rfl
  have up : ∀ key, asking.keys.isDown key = false := by
    rw [asking, load_powerOn _ [0xF3, 0x0A] (by decide)]
    exact Keys.isDown_released
  obtain ⟨-, waits, -⟩ := Reachable.step_reports reachable
  have reached : answered.Reachable := reachable.applyAll _
  obtain ⟨waiting, begun, pressed, reported⟩ :
      answered.machine.awaiting = some 3 ∧ answered.machine.pc = 0x200 ∧
        answered.keys.lowest? = some 5 ∧
        (answered.step 0).1 = .ok (.executed (.awaitKey 3)) := by decide +kernel
  have stepped : answered.step 0 = (.ok (.executed (.awaitKey 3)), (answered.step 0).2) := by
    rw [← reported]
  obtain ⟨-, -, carries⟩ := Reachable.step_reports reached
  obtain ⟨instruction, executed, -, completes, -⟩ := carries 0 _ _ stepped nofun
  obtain rfl : Instruction.awaitKey 3 = instruction := Outcome.executed.inj executed
  obtain ⟨key, lowest, taken⟩ := completes.key 3 rfl
  obtain rfl : 5 = key := Option.some.inj (pressed.symm.trans lowest)
  refine ⟨reachable, fun random => (waits random 3).mpr ⟨found, up⟩, reached, waiting, _, stepped,
    ?_, ?_, completes.idle⟩
  · generalize answered.machine.advance = machine at taken
    rw [taken]
    show (machine.setRegister 3 (Key.toByte 5)).register 3 = 5
    rw [Machine.register_setRegister, if_pos rfl]
    rfl
  · have down : (answered.inputs 0).keys.lowest? = some 5 := pressed
    rw [completes.pc, Machine.successor, down, begun]
    rfl

end Interpreter

end Chip8
