/-!
# The call stack

Sixteen slots, filled from the first one on, and the number of them in use. A slot keeps its last
address after a return until a later call overwrites it, so what the stack holds is the part in use
(`CallStack.toList`), on which a call appends and a return takes the last address away.
-/

namespace Chip8

/-- The addresses of the calls that have not returned. -/
structure CallStack where
  /-- Every slot, in use or not. -/
  slots : Vector UInt16 16
  /-- The number of slots in use. -/
  depth : Nat
  /-- No more slots are in use than there are. -/
  depth_le : depth ≤ 16
  deriving DecidableEq, Repr

namespace CallStack

/-- The number of slots. -/
def capacity : Nat := 16

/-- The stack before any call. -/
def empty : CallStack := ⟨Vector.replicate 16 0, 0, Nat.zero_le _⟩

/-- The stack with an address on top, if a slot is left. -/
def push? (stack : CallStack) (address : UInt16) : Option CallStack :=
  if room : stack.depth < 16 then
    some ⟨stack.slots.set stack.depth address, stack.depth + 1, room⟩
  else none

/-- The address on top and the stack without it, if a slot is in use. -/
def pop? (stack : CallStack) : Option (UInt16 × CallStack) :=
  have := stack.depth_le
  if used : 0 < stack.depth then
    some (stack.slots[stack.depth - 1], ⟨stack.slots, stack.depth - 1, by omega⟩)
  else none

/-- The addresses in use, the oldest first. -/
def toList (stack : CallStack) : List UInt16 := stack.slots.toList.take stack.depth

/-- There are as many addresses as slots in use. -/
@[simp] theorem length_toList (stack : CallStack) : stack.toList.length = stack.depth := by
  have := stack.depth_le
  simp only [toList, List.length_take, Vector.length_toList]; omega

/-- The stack before any call holds nothing. -/
@[simp] theorem toList_empty : empty.toList = [] := rfl

/-- An address is refused exactly when every slot is in use. -/
theorem push?_eq_none_iff (stack : CallStack) (address : UInt16) :
    stack.push? address = none ↔ stack.depth = 16 := by
  have := stack.depth_le
  simp only [push?, dite_eq_right_iff, reduceCtorEq, imp_false]; omega

/-- An address that is taken in comes after those already held. -/
theorem toList_of_push? {stack next : CallStack} {address : UInt16}
    (pushed : stack.push? address = some next) : next.toList = stack.toList ++ [address] := by
  unfold push? at pushed
  split at pushed
  case isTrue room =>
    cases pushed
    simp only [toList, List.take_add_one, Vector.toList_set]
    rw [List.take_set_of_le (Nat.le_refl _)]
    simp [room]
  case isFalse => cases pushed

/-- Nothing is on top exactly when no slot is in use. -/
theorem pop?_eq_none_iff (stack : CallStack) : stack.pop? = none ↔ stack.depth = 0 := by
  simp only [pop?, dite_eq_right_iff, reduceCtorEq, imp_false]; omega

/-- What is on top is the last address held, and the others are left. -/
theorem toList_of_pop? {stack rest : CallStack} {address : UInt16}
    (popped : stack.pop? = some (address, rest)) : stack.toList = rest.toList ++ [address] := by
  have bound := stack.depth_le
  unfold pop? at popped
  split at popped
  case isTrue used =>
    cases popped
    obtain ⟨depth, same⟩ : ∃ depth, stack.depth = depth + 1 := ⟨stack.depth - 1, by omega⟩
    have inside : depth < 16 := by omega
    simp only [toList, same, List.take_add_one, Nat.add_sub_cancel]
    simp [inside]
  case isFalse => cases popped

end CallStack

end Chip8
