import Chip8.Machine.Perform

/-!
# When an instruction is performed

Most instructions always are. The others look at the stack, at memory or at a key first, and these
laws say what they found when they were performed, and why they were not when they faulted.
-/

namespace Chip8

/-- A result that is made from another is there exactly when the other is. -/
theorem map_eq_ok_iff {α β : Type} {result : Except Fault α} {make : α → β} {made : β} :
    result.map make = .ok made ↔ ∃ found, result = .ok found ∧ make found = made := by
  cases result with
  | error fault => simp only [Except.map, reduceCtorEq, false_and, exists_false]
  | ok found => simp only [Except.map, Except.ok.injEq, exists_eq_left']

/-- A result that is made from another faults exactly as the other does. -/
theorem map_eq_error_iff {α β : Type} {result : Except Fault α} {make : α → β} {fault : Fault} :
    result.map make = .error fault ↔ result = .error fault := by
  cases result with
  | error found => simp only [Except.map, Except.error.injEq]
  | ok found => simp only [Except.map, reduceCtorEq]

/-- A place in a range that stays in memory is an address. -/
theorem Memory.range_bound {start count : Nat} (inside : start + count ≤ 4096)
    (place : Fin count) : start + place.val < 4096 := by
  omega

/-- The bytes of a range that stays in memory. -/
def Memory.range (memory : Memory) (start count : Nat) (inside : start + count ≤ 4096) :
    Vector UInt8 count :=
  Vector.ofFn fun place => memory.bytes.get ⟨start + place.val, range_bound inside place⟩

/-- A byte of a range is the one that memory holds that far from its start. -/
theorem Memory.getElem_range (memory : Memory) (start count : Nat) (inside : start + count ≤ 4096)
    (place : Nat) (low : place < count) :
    (memory.range start count inside)[place] = memory.bytes[start + place] := by
  rw [range, Vector.getElem_ofFn]
  rfl

/-- A read that stays in memory gives its range. -/
theorem Memory.read_of_inside (memory : Memory) {start count : Nat}
    (inside : start + count ≤ 4096) :
    memory.read start count = .ok (memory.range start count inside) := by
  rw [read, dif_pos inside]
  rfl

/-- A write that stays in memory gives the memory with the bytes in their places. -/
theorem Memory.write_of_inside (memory : Memory) {start : Nat} {bytes : List UInt8}
    (inside : start + bytes.length ≤ 4096) :
    memory.write start bytes = .ok ⟨overwrite start bytes memory.bytes⟩ := by
  rw [write, if_pos inside]

namespace Machine

variable {machine next : Machine} {inputs : Inputs}

/-- A return that is performed goes to just after the call on top of the stack. -/
theorem of_perform_ret (performed : machine.perform inputs .ret = .ok next) :
    ∃ caller rest, machine.stack.pop? = some (caller, rest) ∧
      next = { machine with pc := caller + 2, stack := rest } := by
  cases popped : machine.stack.pop? with
  | none =>
    rw [perform, popped] at performed
    cases performed
  | some result =>
    obtain ⟨caller, rest⟩ := result
    rw [perform, popped] at performed
    exact ⟨caller, rest, rfl, (Except.ok.inj performed).symm⟩

/-- A call that is performed leaves its own address on top of the stack. -/
theorem of_perform_call {target : Address}
    (performed : machine.perform inputs (.call target) = .ok next) :
    ∃ stack, machine.stack.push? machine.pc = some stack ∧
      next = { machine with pc := UInt16.ofNat target, stack } := by
  cases pushed : machine.stack.push? machine.pc with
  | none =>
    rw [perform, pushed] at performed
    cases performed
  | some stack =>
    rw [perform, pushed] at performed
    exact ⟨stack, rfl, (Except.ok.inj performed).symm⟩

/-- A wait for a key ends with the lowest key that is down, or goes on where it is. -/
theorem of_perform_awaitKey {x : Register}
    (performed : machine.perform inputs (.awaitKey x) = .ok next) :
    (∃ key, inputs.keys.lowest? = some key ∧
        next = { machine.advance.setRegister x key.toByte with awaiting := none }) ∨
      (inputs.keys.lowest? = none ∧ next = { machine with awaiting := some x }) := by
  cases lowest : inputs.keys.lowest? with
  | none =>
    rw [perform, lowest] at performed
    exact .inr ⟨rfl, (Except.ok.inj performed).symm⟩
  | some key =>
    rw [perform, lowest] at performed
    exact .inl ⟨key, rfl, (Except.ok.inj performed).symm⟩

end Machine

end Chip8
