import Chip8.Proofs.Footprint
import Chip8.Proofs.Reachable

/-!
# Before a program is loaded

Without a program the machine runs zeros and glyphs, wherever the host leads it. Two bytes of
those are never an instruction that writes to memory or waits for a key, since such instructions
end in bytes that no glyph has a row of. Memory therefore stays as it is at power-on until a
program is loaded, and nothing is waited for.
-/

namespace Chip8

/-- The low bytes of the instructions that write to memory or wait for a key. -/
def deviceBytes : List UInt8 := [0x0A, 0x33, 0x55]

/-- A byte of memory at power-on is zero or a row of a glyph. -/
theorem Memory.initial_mem (address : Nat) (inside : address < 4096) :
    initial.bytes[address] ∈ 0 :: font := by
  rw [getElem_initial]
  split
  case isTrue =>
    cases found : font[address - 80]? with
    | none => exact List.mem_cons_self
    | some row => exact List.mem_cons_of_mem _ (List.mem_of_getElem? found)
  case isFalse => exact List.mem_cons_self

/-- No row of a glyph is the low byte of an instruction that writes to memory or waits. -/
theorem Memory.initial_not_mem_deviceBytes (address : Nat) (inside : address < 4096) :
    initial.bytes[address] ∉ deviceBytes := by
  have apart : ∀ byte ∈ 0 :: font, byte ∉ deviceBytes := by decide +kernel
  exact apart _ (initial_mem address inside)

namespace Instruction

/-- An instruction neither writes to memory nor has to do with waiting for a key. -/
def Plain (instruction : Instruction) : Prop :=
  .memory ∉ instruction.writes ∧ .awaiting ∉ instruction.writes

variable {instruction : Instruction}

/-- The instructions of family zero are plain. -/
theorem plain_ofSystemAddress (address : Address) : (ofSystemAddress address).Plain := by
  unfold ofSystemAddress
  split
  · exact ⟨by decide, by decide⟩
  · split
    · exact ⟨by decide, by decide⟩
    · simp [Plain, writes]

/-- The instructions of family eight are plain. -/
theorem plain_of_ofRegisterDigit? {x y n : Fin 16}
    (decoded : ofRegisterDigit? x y n = some instruction) : instruction.Plain := by
  unfold ofRegisterDigit? at decoded
  split at decoded <;> cases decoded <;> simp [Plain, writes]

/-- The instructions of family fourteen are plain. -/
theorem plain_of_ofKeyDigits? {x y n : Fin 16}
    (decoded : ofKeyDigits? x y n = some instruction) : instruction.Plain := by
  unfold ofKeyDigits? at decoded
  split at decoded <;> cases decoded <;> simp [Plain, writes]

/-- An instruction of family fifteen is plain or has one of three low bytes. -/
theorem plain_of_ofDeviceDigits? {x y n : Fin 16}
    (decoded : ofDeviceDigits? x y n = some instruction) :
    instruction.Plain ∨ byteOfDigits y n ∈ deviceBytes := by
  unfold ofDeviceDigits? at decoded
  split at decoded <;> cases decoded
  case h_2 => exact .inr (by decide)
  case h_7 => exact .inr (by decide)
  case h_8 => exact .inr (by decide)
  all_goals exact .inl (by simp [Plain, writes])

/-- An instruction is plain unless its opcode ends in one of three bytes. -/
theorem plain_of_ofOpcode? {opcode : Opcode} (decoded : ofOpcode? opcode = some instruction)
    (plain : opcode.byte ∉ deviceBytes) : instruction.Plain := by
  obtain ⟨family, x, y, n⟩ := opcode
  unfold ofOpcode? at decoded
  simp only at decoded
  split at decoded
  case h_1 =>
    cases decoded
    exact plain_ofSystemAddress _
  case h_9 => exact plain_of_ofRegisterDigit? decoded
  case h_15 => exact plain_of_ofKeyDigits? decoded
  case h_16 => exact (plain_of_ofDeviceDigits? decoded).resolve_right plain
  case h_6 =>
    split at decoded
    · cases decoded
      simp [Plain, writes]
    · cases decoded
  case h_10 =>
    split at decoded
    · cases decoded
      simp [Plain, writes]
    · cases decoded
  -- The families that are left have one instruction each.
  all_goals
    cases decoded
    simp [Plain, writes]

end Instruction

/-- A machine whose memory is as at power-on comes upon plain instructions only. -/
theorem Machine.plain_of_initial {machine : Machine} {instruction : Instruction}
    (memory : machine.memory = .initial) (found : machine.instruction = .ok instruction) :
    instruction.Plain := by
  obtain ⟨inside, decoded⟩ := (machine.instruction_eq_ok_iff instruction).mp found
  apply Instruction.plain_of_ofOpcode? decoded
  rw [Memory.opcode, Opcode.byte_ofBytes, memory]
  exact Memory.initial_not_mem_deviceBytes _ _

/-- Until a program is loaded, the memory of a reachable interpreter is as at power-on and nothing
is waited for. -/
theorem Interpreter.Reachable.unloaded {interpreter : Interpreter}
    (reachable : interpreter.Reachable) (unloaded : interpreter.loaded = false) :
    interpreter.machine.memory = .initial ∧ interpreter.machine.awaiting = none := by
  revert unloaded
  refine Reachable.invariant (motive := fun loaded machine =>
    loaded = false → machine.memory = .initial ∧ machine.awaiting = none)
    ?_ ?_ ?_ ?_ ?_ ?_ reachable
  · intro _
    exact ⟨rfl, rfl⟩
  · intro interpreter program _ _ _ _ loaded
    cases loaded
  · intro loaded machine next inputs instruction found performed ih unloaded
    obtain ⟨memory, awaiting⟩ := ih unloaded
    obtain ⟨readsOnly, goesOn⟩ := Machine.plain_of_initial memory found
    have sameMemory : machine.memory = next.memory :=
      Machine.perform_untouched performed .memory readsOnly
    have sameAwaiting : machine.awaiting = next.awaiting :=
      Machine.perform_untouched performed .awaiting goesOn
    rw [← sameMemory, ← sameAwaiting]
    exact ⟨memory, awaiting⟩
  · intro loaded machine ih unloaded
    exact ⟨(ih unloaded).1, rfl⟩
  · intro loaded machine ih unloaded
    exact ih unloaded
  · intro loaded machine ih unloaded
    exact ih unloaded

end Chip8
