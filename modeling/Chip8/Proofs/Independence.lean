import Chip8.Proofs.Cycle
import Chip8.Proofs.Footprint

/-!
# What an instruction takes no notice of

An instruction looks at some parts of the machine and changes some, and of its inputs it looks at
one at most. Any other part may be exchanged before the instruction as well as after it
(`Machine.perform_graft`), and any other input may be anything (`Machine.perform_congr_inputs`).
`Interpreter.step_map` carries this over to a step: a change of the interpreter that its next
instruction takes no notice of may come before the step or after it.
-/

namespace Chip8

/-- A machine with one part taken from a donor. -/
def Part.graft (donor : Machine) : Part → Machine → Machine
  | .registers, machine => { machine with registers := donor.registers }
  | .index, machine => { machine with index := donor.index }
  | .pc, machine => { machine with pc := donor.pc }
  | .stack, machine => { machine with stack := donor.stack }
  | .delay, machine => { machine with delay := donor.delay }
  | .sound, machine => { machine with sound := donor.sound }
  | .memory, machine => { machine with memory := donor.memory }
  | .frame, machine => { machine with frame := donor.frame }
  | .redraw, machine => { machine with redraw := donor.redraw }
  | .awaiting, machine => { machine with awaiting := donor.awaiting }

namespace Instruction

/-- The parts that an instruction looks at, beside those that it may change. -/
def reads : Instruction → List Part
  | .skip _ => [.registers]
  | .jumpOffset _ => [.registers]
  | .draw _ _ _ => [.index, .memory]
  | .readDelay _ => [.delay]
  | .setDelay _ => [.registers]
  | .setSound _ => [.registers]
  | .addIndex _ => [.registers]
  | .loadGlyph _ => [.registers]
  | .storeDecimal _ => [.registers, .index]
  | .storeRegisters _ => [.registers, .index]
  | .loadRegisters _ => [.memory]
  | _ => []

/-- An instruction neither looks at a part nor changes it. -/
def Ignores (instruction : Instruction) (part : Part) : Prop :=
  part ∉ instruction.reads ∧ part ∉ instruction.writes

/-- An instruction looks at the keys. -/
def keyed : Instruction → Bool
  | .skip (.pressed _) => true
  | .skip (.released _) => true
  | .awaitKey _ => true
  | _ => false

end Instruction

namespace Machine

/-- A part that an instruction takes no notice of may be exchanged before the instruction or after
it. -/
theorem perform_graft (machine donor : Machine) (inputs : Inputs) {instruction : Instruction}
    {part : Part} (ignored : instruction.Ignores part) :
    (part.graft donor machine).perform inputs instruction =
      (machine.perform inputs instruction).map (part.graft donor) := by
  obtain ⟨unread, unwritten⟩ := ignored
  cases instruction with
  | ret =>
    cases part <;> simp [Instruction.writes] at unwritten <;>
      (simp only [perform, Part.graft]; cases machine.stack.pop? <;> rfl)
  | call target =>
    cases part <;> simp [Instruction.writes] at unwritten <;>
      (simp only [perform, Part.graft]; cases machine.stack.push? machine.pc <;> rfl)
  | skip condition =>
    have tested : (part.graft donor machine).test inputs.keys condition =
        machine.test inputs.keys condition := by
      cases part <;> simp [Instruction.reads] at unread <;> cases condition <;> rfl
    rw [perform, tested, perform]
    cases part <;> simp [Instruction.writes] at unwritten <;>
      cases machine.test inputs.keys condition <;> rfl
  | draw x y height =>
    cases part <;> simp [Instruction.reads, Instruction.writes] at unread unwritten <;>
      (simp only [perform, Part.graft]
       cases machine.memory.read machine.index.toNat height <;> rfl)
  | awaitKey x =>
    cases part <;> simp [Instruction.writes] at unwritten <;>
      (simp only [perform, Part.graft]; cases inputs.keys.lowest? <;> rfl)
  | storeDecimal x =>
    have stored : (part.graft donor machine).register x = machine.register x := by
      cases part <;> simp [Instruction.reads] at unread <;> rfl
    rw [perform, stored, perform]
    cases part <;> simp [Instruction.reads, Instruction.writes] at unread unwritten <;>
      (simp only [Part.graft]
       cases machine.memory.write machine.index.toNat (decimalDigits (machine.register x)) <;> rfl)
  | storeRegisters last =>
    cases part <;> simp [Instruction.reads, Instruction.writes] at unread unwritten <;>
      (simp only [perform, Part.graft]
       cases machine.memory.write machine.index.toNat
        (machine.registers.toList.take (last + 1)) <;> rfl)
  | loadRegisters last =>
    cases part <;> simp [Instruction.reads, Instruction.writes] at unread unwritten <;>
      (simp only [perform, Part.graft]
       cases machine.memory.read machine.index.toNat (last + 1) <;> rfl)
  | _ =>
    -- The instructions that are left always succeed, and each field of the result is at hand.
    cases part <;> simp [Instruction.reads, Instruction.writes] at unread unwritten <;> rfl

/-- An instruction does the same under other inputs, if those are the same that it looks at. -/
theorem perform_congr_inputs (machine : Machine) {left right : Inputs} {instruction : Instruction}
    (keys : instruction.keyed = true → left.keys = right.keys)
    (edge : ∀ x y height, instruction = .draw x y height → left.edge = right.edge)
    (random : left.random = right.random) :
    machine.perform left instruction = machine.perform right instruction := by
  cases instruction with
  | skip condition =>
    have tested : machine.test left.keys condition = machine.test right.keys condition := by
      cases condition with
      | pressed x | released x => rw [keys rfl]
      | _ => rfl
    rw [perform, tested, perform]
  | random x mask => rw [perform, random, perform]
  | draw x y height => rw [perform, edge x y height rfl, perform]
  | awaitKey x => rw [perform, keys rfl, perform]
  | _ => rfl

end Machine

namespace Interpreter

/-- A change of the interpreter that its next instruction takes no notice of may come before a step
or after it, and the step answers the same. What the change does to the machine is `change`, and
whatever machine is put into the interpreter, the rest changes as it does. -/
theorem step_map {interpreter : Interpreter} {random : UInt8} (lift : Interpreter → Interpreter)
    (change : Machine → Machine)
    (lifts : ∀ machine, lift { interpreter with machine } =
      { lift interpreter with machine := change machine })
    (found : (change interpreter.machine).instruction = interpreter.machine.instruction)
    (performs : ∀ instruction, interpreter.machine.instruction = .ok instruction →
      (change interpreter.machine).perform ((lift interpreter).inputs random) instruction =
        (interpreter.machine.perform (interpreter.inputs random) instruction).map change)
    (awaiting : ∀ machine, (change machine).awaiting = machine.awaiting) :
    (lift interpreter).step random = (interpreter.step random).map id lift := by
  have changed : (lift interpreter).machine = change interpreter.machine :=
    congrArg Interpreter.machine (lifts interpreter.machine)
  unfold step Machine.cycle
  rw [changed, found]
  cases next : interpreter.machine.instruction with
  | error fault => rfl
  | ok instruction =>
    simp only [performs instruction next]
    cases interpreter.machine.perform (interpreter.inputs random) instruction with
    | error fault => rfl
    | ok machine =>
      simp only [Except.map, awaiting]
      exact congrArg (Prod.mk _) (lifts machine).symm

end Interpreter

end Chip8
