import Chip8.Proofs.Perform

/-!
# What an instruction may change

The machine has ten parts, and an instruction writes a few of them. `Instruction.writes` is the
table of those, and `Machine.perform_untouched` says that a part outside the table is left as it
was. Whatever concerns one part only is read off from here, without opening `perform`. The program
counter is in every row of the table, and `Machine.successor` says where it goes.
-/

namespace Chip8

/-- A part of the machine, named after the field that holds it. -/
inductive Part
  | registers | index | pc | stack | delay | sound | memory | frame | redraw | awaiting
  deriving DecidableEq

/-- Two machines have a part in common. -/
def Part.Same (left right : Machine) : Part → Prop
  | .registers => left.registers = right.registers
  | .index => left.index = right.index
  | .pc => left.pc = right.pc
  | .stack => left.stack = right.stack
  | .delay => left.delay = right.delay
  | .sound => left.sound = right.sound
  | .memory => left.memory = right.memory
  | .frame => left.frame = right.frame
  | .redraw => left.redraw = right.redraw
  | .awaiting => left.awaiting = right.awaiting

/-- The parts that an instruction may change. -/
def Instruction.writes : Instruction → List Part
  | .clear => [.pc, .frame, .redraw]
  | .ret => [.pc, .stack]
  | .machineCall _ => [.pc]
  | .jump _ => [.pc]
  | .call _ => [.pc, .stack]
  | .skip _ => [.pc]
  | .load _ _ => [.pc, .registers]
  | .add _ _ => [.pc, .registers]
  | .combine _ _ _ => [.pc, .registers]
  | .arithmetic _ _ _ => [.pc, .registers]
  | .shift _ _ => [.pc, .registers]
  | .loadIndex _ => [.pc, .index]
  | .jumpOffset _ => [.pc]
  | .random _ _ => [.pc, .registers]
  | .draw _ _ _ => [.pc, .registers, .frame, .redraw]
  | .readDelay _ => [.pc, .registers]
  | .awaitKey _ => [.pc, .registers, .awaiting]
  | .setDelay _ => [.pc, .delay]
  | .setSound _ => [.pc, .sound]
  | .addIndex _ => [.pc, .index]
  | .loadGlyph _ => [.pc, .index]
  | .storeDecimal _ => [.pc, .memory]
  | .storeRegisters _ => [.pc, .memory]
  | .loadRegisters _ => [.pc, .registers, .index]

namespace Machine

/-- An instruction leaves every part as it was that it does not write. -/
theorem perform_untouched {machine next : Machine} {inputs : Inputs} {instruction : Instruction}
    (performed : machine.perform inputs instruction = .ok next) (part : Part)
    (untouched : part ∉ instruction.writes) : part.Same machine next := by
  cases instruction with
  | ret =>
    obtain ⟨caller, rest, -, rfl⟩ := of_perform_ret performed
    cases part <;> simp [Part.Same, Instruction.writes] at untouched ⊢
  | call target =>
    obtain ⟨stack, -, rfl⟩ := of_perform_call performed
    cases part <;> simp [Part.Same, Instruction.writes] at untouched ⊢
  | skip condition =>
    obtain ⟨holds, -, rfl⟩ := map_eq_ok_iff.mp performed
    cases part <;> simp [Part.Same, Instruction.writes, skipIf] at untouched ⊢
  | draw x y height =>
    obtain ⟨sprite, -, rfl⟩ := map_eq_ok_iff.mp performed
    cases part <;>
      simp [Part.Same, Instruction.writes, stamp, present, setRegister, advance] at untouched ⊢
  | awaitKey x =>
    obtain ⟨key, -, rfl⟩ | ⟨-, rfl⟩ := of_perform_awaitKey performed
    · cases part <;> simp [Part.Same, Instruction.writes, setRegister, advance] at untouched ⊢
    · cases part <;> simp [Part.Same, Instruction.writes] at untouched ⊢
  | storeDecimal x =>
    obtain ⟨memory, -, rfl⟩ := map_eq_ok_iff.mp performed
    cases part <;> simp [Part.Same, Instruction.writes, advance] at untouched ⊢
  | storeRegisters last =>
    obtain ⟨memory, -, rfl⟩ := map_eq_ok_iff.mp performed
    cases part <;> simp [Part.Same, Instruction.writes, advance] at untouched ⊢
  | loadRegisters last =>
    obtain ⟨bytes, -, rfl⟩ := map_eq_ok_iff.mp performed
    cases part <;> simp [Part.Same, Instruction.writes, advance] at untouched ⊢
  | _ =>
    -- The instructions that are left always succeed, and their result is at hand.
    obtain rfl := Except.ok.inj performed
    cases part <;>
      simp [Part.Same, Instruction.writes, present, setFlagged, setRegister, advance] at untouched ⊢

/-- The address of the instruction after the given one. -/
def successor (machine : Machine) (inputs : Inputs) : Instruction → UInt16
  | .ret =>
    match machine.stack.pop? with
    | some (caller, _) => caller + 2
    | none => machine.pc
  | .jump target => UInt16.ofNat target
  | .call target => UInt16.ofNat target
  | .skip condition =>
    match machine.test inputs.keys condition with
    | .ok true => machine.pc + 4
    | _ => machine.pc + 2
  | .jumpOffset base => (machine.register offset).toUInt16 + UInt16.ofNat base
  | .awaitKey _ =>
    match inputs.keys.lowest? with
    | some _ => machine.pc + 2
    | none => machine.pc
  | _ => machine.pc + 2

/-- An instruction that is performed leaves the program counter at its successor. -/
theorem pc_of_perform {machine next : Machine} {inputs : Inputs} {instruction : Instruction}
    (performed : machine.perform inputs instruction = .ok next) :
    next.pc = machine.successor inputs instruction := by
  cases instruction with
  | ret =>
    obtain ⟨caller, rest, popped, rfl⟩ := of_perform_ret performed
    rw [successor, popped]
  | call target =>
    obtain ⟨stack, -, rfl⟩ := of_perform_call performed
    rfl
  | skip condition =>
    obtain ⟨holds, tested, rfl⟩ := map_eq_ok_iff.mp performed
    rw [successor, tested]
    cases holds with
    | false => rfl
    | true => rfl
  | draw x y height =>
    obtain ⟨sprite, -, rfl⟩ := map_eq_ok_iff.mp performed
    rfl
  | awaitKey x =>
    obtain ⟨key, lowest, rfl⟩ | ⟨lowest, rfl⟩ := of_perform_awaitKey performed
    · rw [successor, lowest]
      rfl
    · rw [successor, lowest]
  | storeDecimal x =>
    obtain ⟨memory, -, rfl⟩ := map_eq_ok_iff.mp performed
    rfl
  | storeRegisters last =>
    obtain ⟨memory, -, rfl⟩ := map_eq_ok_iff.mp performed
    rfl
  | loadRegisters last =>
    obtain ⟨bytes, -, rfl⟩ := map_eq_ok_iff.mp performed
    rfl
  | _ =>
    obtain rfl := Except.ok.inj performed
    rfl

end Machine

end Chip8
