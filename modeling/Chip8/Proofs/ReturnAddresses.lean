import Chip8.Proofs.Footprint
import Chip8.Proofs.Reachable

/-!
# Return addresses

A call is only performed where its opcode was fetched, so the address it leaves on the stack has
two bytes of memory from there on. No command disturbs that: the host moves the program counter
wherever it likes, but only a cycle touches the stack. A return therefore never wraps around, no
more than an instruction that goes on from where it was fetched (`Machine.HasRoom`), and a cycle
leaves the program counter close to memory.
-/

namespace Chip8

/-- A slot in use holds one of the addresses of the stack. -/
theorem CallStack.slot_mem_toList (stack : CallStack) (slot : Nat) (used : slot < stack.depth) :
    have := stack.depth_le
    stack.slots[slot] ∈ stack.toList := by
  have bound := stack.depth_le
  rw [toList, List.mem_take_iff_getElem]
  refine ⟨slot, ?_, ?_⟩
  · rw [Vector.length_toList]
    omega
  · rw [Vector.getElem_toList]

/-- What is on top of the stack is one of its addresses. -/
theorem CallStack.top_mem_toList {stack rest : CallStack} {address : UInt16}
    (popped : stack.pop? = some (address, rest)) : address ∈ stack.toList := by
  rw [toList_of_pop? popped]
  exact List.mem_append_right _ List.mem_cons_self

namespace Machine

/-- Every address that a return may go back to has two bytes of memory from there on. -/
def Returnable (machine : Machine) : Prop :=
  ∀ address ∈ machine.stack.toList, address.toNat ≤ 0xFFE

/-- An instruction does not take the program counter around the end of its word. One that has no
room would lie where nothing is fetched, so it can only be performed by itself. -/
def HasRoom (machine : Machine) (keys : Keys) : Instruction → Prop
  | .ret => ∀ caller rest, machine.stack.pop? = some (caller, rest) → caller.toNat < 0xFFFE
  | .jump _ => True
  | .call _ => True
  | .skip condition => ∀ holds, machine.test keys condition = .ok holds →
      machine.pc.toNat < if holds then 0xFFFC else 0xFFFE
  | .jumpOffset _ => True
  | .awaitKey _ => ∀ key, keys.lowest? = some key → machine.pc.toNat < 0xFFFE
  | _ => machine.pc.toNat < 0xFFFE

variable {machine next : Machine} {inputs : Inputs} {instruction : Instruction}

/-- An instruction is performed only where its opcode lies in memory. -/
theorem pc_le_of_instruction (found : machine.instruction = .ok instruction) :
    machine.pc.toNat ≤ 0xFFE := by
  obtain ⟨inside, -⟩ := (machine.instruction_eq_ok_iff _).mp found
  omega

/-- An instruction has room where its opcode lies in memory. -/
theorem Returnable.hasRoom (returnable : machine.Returnable) (inside : machine.pc.toNat ≤ 0xFFE)
    (keys : Keys) (instruction : Instruction) : machine.HasRoom keys instruction := by
  have plain : machine.pc.toNat < 0xFFFE := by omega
  cases instruction with
  | ret =>
    intro caller rest popped
    have back := returnable caller (CallStack.top_mem_toList popped)
    omega
  | skip condition =>
    intro holds _
    split <;> omega
  | awaitKey x => exact fun _ _ => plain
  | jump | call | jumpOffset => trivial
  | _ => exact plain

/-- A cycle leaves only addresses on the stack to which a return may go back. -/
theorem Returnable.perform (returnable : machine.Returnable) (inside : machine.pc.toNat ≤ 0xFFE)
    (performed : machine.perform inputs instruction = .ok next) : next.Returnable := by
  by_cases writes : Part.stack ∈ instruction.writes
  · cases instruction with
    | ret =>
      obtain ⟨caller, rest, popped, rfl⟩ := of_perform_ret performed
      intro address member
      apply returnable
      rw [CallStack.toList_of_pop? popped]
      exact List.mem_append_left _ member
    | call target =>
      obtain ⟨stack, pushed, rfl⟩ := of_perform_call performed
      intro address member
      rw [CallStack.toList_of_push? pushed, List.mem_append, List.mem_singleton] at member
      obtain earlier | rfl := member
      · exact returnable address earlier
      · exact inside
    | _ => simp [Instruction.writes] at writes
  · have same : machine.stack = next.stack := perform_untouched performed .stack writes
    intro address member
    rw [← same] at member
    exact returnable address member

/-- An address of an opcode is the same number as a word. -/
theorem toNat_ofAddress (address : Address) : (UInt16.ofNat address).toNat = address := by
  rw [UInt16.toNat_ofNat']
  omega

/-- An offset jump goes to the sum, without wrapping around. -/
theorem toNat_jumpOffset (byte : UInt8) (base : Address) :
    (byte.toUInt16 + UInt16.ofNat base).toNat = byte.toNat + base := by
  have bound := byte.toNat_lt
  rw [UInt16.toNat_add, UInt8.toNat_toUInt16, toNat_ofAddress]
  omega

/-- No instruction leads further than an offset jump from the last address by the greatest byte. -/
theorem Returnable.successor_le (returnable : machine.Returnable)
    (inside : machine.pc.toNat ≤ 0xFFE) :
    (machine.successor inputs instruction).toNat ≤ 0x10FE := by
  have plain : (machine.pc + 2).toNat ≤ 0x10FE := by
    rw [toNat_add_two (by omega)]
    omega
  cases instruction with
  | ret =>
    cases popped : machine.stack.pop? with
    | none =>
      rw [successor, popped]
      exact Nat.le_trans inside (by decide)
    | some result =>
      have bound := returnable result.1 (CallStack.top_mem_toList popped)
      rw [successor, popped, toNat_add_two (by omega)]
      omega
  | jump target =>
    rw [successor, toNat_ofAddress]
    omega
  | call target =>
    rw [successor, toNat_ofAddress]
    omega
  | skip condition =>
    rw [successor]
    split
    · rw [toNat_add_four (by omega)]
      omega
    · exact plain
  | jumpOffset base =>
    have bound := (machine.register offset).toNat_lt
    rw [successor, toNat_jumpOffset]
    omega
  | awaitKey x =>
    rw [successor]
    split
    · exact plain
    · omega
  | _ => exact plain

end Machine

namespace Interpreter

/-- A return never finds an address on a reachable stack from which it cannot go on. -/
theorem Reachable.returnable {interpreter : Interpreter} (reachable : interpreter.Reachable) :
    interpreter.machine.Returnable := by
  refine Reachable.invariant (motive := fun _ machine => machine.Returnable)
    ?_ ?_ ?_ ?_ ?_ ?_ reachable
  · intro address member
    cases member
  · intro interpreter program _ _ _ returnable
    exact returnable
  · intro _ machine next inputs instruction found performed returnable
    exact returnable.perform (Machine.pc_le_of_instruction found) performed
  · intro _ machine returnable
    exact returnable
  · intro _ machine returnable
    exact returnable
  · intro _ machine returnable
    exact returnable

/-- A step that succeeds leaves the program counter at most an offset jump past memory. -/
theorem Reachable.pc_of_step {interpreter after : Interpreter} {random : UInt8} {outcome : Outcome}
    (reachable : interpreter.Reachable) (stepped : interpreter.step random = (.ok outcome, after)) :
    after.machine.pc.toNat ≤ 0x10FE := by
  obtain ⟨fault, -, same⟩ | ⟨instruction, next, found, performed, same⟩ :=
    interpreter.step_cases random
  · rw [stepped] at same
    cases same
  · rw [stepped] at same
    cases same
    show next.pc.toNat ≤ 0x10FE
    rw [Machine.pc_of_perform performed]
    exact reachable.returnable.successor_le (Machine.pc_le_of_instruction found)

end Interpreter

end Chip8
