import Chip8.Proofs.Flat.Simulation

/-!
# Where the flat interpreter breaks

An instruction that has room does to the flat interpreter what it does to the machine
(`Interpreter.perform_flat`). One that has none takes the program counter of the machine around the
end of its word, if it is performed, and is never performed by the flat interpreter, which comes to
a sum for which there is no word. The two differ in nothing else. So what is said of an instruction
on the machine, of a draw, of arithmetic with a flag, of a transfer, is said of checked sums as well
wherever it has room.
-/

namespace Chip8

namespace Flat

/-- A result is only there under a condition. -/
def Needs {α : Type} (condition : Prop) (result : Except Stop α) : Prop :=
  ∀ found, result = .ok found → condition

variable {α β : Type} {condition : Prop} {result : Except Stop α} {follow : α → Except Stop β}

/-- What is done first may need the condition. -/
theorem Needs.first (first : Needs condition result) : Needs condition (result >>= follow) := by
  intro made succeeds
  cases done : result with
  | error stop =>
    rw [done] at succeeds
    cases succeeds
  | ok found => exact first found done

/-- Or what is done with its result may. -/
theorem Needs.later (later : ∀ found, Needs condition (follow found)) :
    Needs condition (result >>= follow) := by
  intro made succeeds
  cases done : result with
  | error stop =>
    rw [done] at succeeds
    cases succeeds
  | ok found =>
    rw [done] at succeeds
    exact later found made succeeds

variable {flat : Flat}

/-- A sum needs room in a word. -/
theorem needs_sum16 (left right : UInt16) :
    Needs (left.toNat + right.toNat < 65536) (sum16 left right) := fun total summed =>
  ((sum16_eq_ok_iff left right total).mp summed).1

/-- There is a next address unless the program counter is at one of the last two. -/
theorem needs_next : Needs (flat.pc.toNat < 0xFFFE) flat.next := fun pc moved =>
  Nat.lt_of_add_lt_add_right (needs_sum16 flat.pc 2 pc moved)

/-- A register is set on the way to the next instruction. -/
theorem needs_setRegister (x : Register) (byte : UInt8) :
    Needs (flat.pc.toNat < 0xFFFE) (flat.setRegister x byte) :=
  .later fun _ => needs_next.first

/-- So is a register with the flag. -/
theorem needs_setFlagged (x : Register) (byte : UInt8) (raised : Bool) :
    Needs (flat.pc.toNat < 0xFFFE) (flat.setFlagged x byte raised) :=
  .later fun _ => .later fun _ => needs_next.first

/-- A sprite is drawn before the interpreter goes on. -/
theorem needs_draw (x y : Register) (height : Fin 16) :
    Needs (flat.pc.toNat < 0xFFFE) (flat.draw x y height) :=
  .later fun _ => .later fun _ => .later fun _ => .later fun _ => .later fun _ => .later fun _ =>
    needs_next.first

/-- Bytes are stored after it does. -/
theorem needs_store (bytes : List UInt8) : Needs (flat.pc.toNat < 0xFFFE) (flat.store bytes) :=
  needs_next.first

end Flat

namespace Interpreter

open Flat

variable (interpreter : Interpreter)

/-- The flat interpreter needs room for every instruction that it performs. -/
theorem needs_perform (random : UInt8) (instruction : Instruction) :
    Needs (interpreter.machine.HasRoom interpreter.keys instruction)
      (interpreter.flat.perform random instruction) := by
  cases instruction with
  | jump | call | jumpOffset => exact fun _ _ => trivial
  | ret =>
    intro after performed caller rest popped
    rw [ret_flat _ popped] at performed
    cases moved : sum16 caller 2 with
    | error stop =>
      rw [moved] at performed
      cases performed
    | ok pc => exact Nat.lt_of_add_lt_add_right (needs_sum16 caller 2 pc moved)
  | skip condition =>
    intro after performed holds tested
    rw [Flat.perform, test_flat, tested] at performed
    have fits := (needs_sum16 interpreter.machine.pc (if holds then 4 else 2)).first _ performed
    cases holds with
    | false => exact Nat.lt_of_add_lt_add_right fits
    | true => exact Nat.lt_of_add_lt_add_right fits
  | awaitKey x =>
    intro after performed key lowest
    rw [Flat.perform, keys_flat, interpreter.keys.find?_cells, lowest] at performed
    exact (needs_setRegister x _).first after performed
  | clear | machineCall | loadIndex => exact needs_next.first
  | setDelay | setSound | addIndex => exact .later fun _ => needs_next.first
  | loadGlyph => exact .later fun _ => .later fun _ => .later fun _ => needs_next.first
  | load | random | readDelay => exact needs_setRegister _ _
  | add => exact .later fun _ => needs_setRegister _ _
  | combine => exact .later fun _ => .later fun _ => needs_setRegister _ _
  | arithmetic => exact .later fun _ => .later fun _ => needs_setFlagged _ _ _
  | shift => exact .later fun _ => needs_setFlagged _ _ _
  | draw x y height => exact needs_draw x y height
  | storeDecimal => exact .later fun _ => needs_store _
  | storeRegisters => exact .later fun _ => .later fun _ => needs_store _
  | loadRegisters =>
    exact .later fun _ => .later fun _ => .later fun _ => .later fun _ => needs_next.first

/-- The flat interpreter performs exactly the instructions that the machine performs and that have
room, and leaves what the machine leaves. -/
theorem perform_flat_eq_ok_iff {random : UInt8} {instruction : Instruction} {after : Flat} :
    interpreter.flat.perform random instruction = .ok after ↔
      interpreter.machine.HasRoom interpreter.keys instruction ∧
        ∃ next, interpreter.machine.perform (interpreter.inputs random) instruction = .ok next ∧
          { interpreter with machine := next }.flat = after := by
  constructor
  · intro performed
    have room := interpreter.needs_perform random instruction after performed
    rw [perform_flat _ room] at performed
    cases made : interpreter.machine.perform (interpreter.inputs random) instruction with
    | error fault =>
      rw [made] at performed
      cases performed
    | ok next =>
      rw [made] at performed
      exact ⟨room, next, rfl, Except.ok.inj performed⟩
  · rintro ⟨room, next, made, rfl⟩
    rw [perform_flat _ room, made]
    rfl

end Interpreter

end Chip8
