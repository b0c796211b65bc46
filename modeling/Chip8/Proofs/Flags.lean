import Chip8.Machine.Perform

/-!
# Results and flags

Five instructions leave a result and a flag. Taken together the two are exact: the flag is what a
register has no room for, the carry of a sum, what a difference borrowed, or the bit that a shift
moves out (`Arithmetic.Balances`, `Shift.Balances`). Operands are read before anything is written
and the flag is written last, so it does not matter which registers are named, nor whether one of
them is the flag. That adding and subtracting undo each other follows from the balances alone.
-/

namespace Chip8

/-- What a result and a flag come to beside the operands, all as numbers. The flag of a difference
is one when nothing is borrowed. -/
def Arithmetic.Balances (operation : Arithmetic) (vx vy result flag : Nat) : Prop :=
  match operation with
  | .add => result + 256 * flag = vx + vy
  | .subtract => (result : Int) = vx - vy + 256 * (1 - flag) ∧ (flag = 1 ↔ vy ≤ vx)
  | .subtractFrom => (result : Int) = vy - vx + 256 * (1 - flag) ∧ (flag = 1 ↔ vx ≤ vy)

/-- What a shifted register and the bit shifted out come to, as numbers. -/
def Shift.Balances (direction : Shift) (vx result flag : Nat) : Prop :=
  match direction with
  | .right => 2 * result + flag = vx
  | .left => result + 256 * flag = 2 * vx

/-- A difference is exact once what it borrowed is put back. -/
theorem toNat_sub_balances (left right : UInt8) :
    ((left - right).toNat : Int) =
        left.toNat - right.toNat + 256 * (1 - ((decide (right ≤ left)).toNat : Int)) ∧
      ((decide (right ≤ left)).toNat = 1 ↔ right.toNat ≤ left.toNat) := by
  have leftBound := left.toNat_lt
  have rightBound := right.toNat_lt
  have difference : (left - right).toNat = (256 - right.toNat + left.toNat) % 256 :=
    UInt8.toNat_sub left right
  by_cases covered : right.toNat ≤ left.toNat
  · have plain : decide (right ≤ left) = true := decide_eq_true (UInt8.le_iff_toNat_le.mpr covered)
    rw [plain, Bool.toNat_true]
    omega
  · have borrowed : decide (right ≤ left) = false :=
      decide_eq_false fun le => covered (UInt8.le_iff_toNat_le.mp le)
    rw [borrowed, Bool.toNat_false]
    omega

/-- The value of an operation and its flag balance. -/
theorem Arithmetic.balances_apply (operation : Arithmetic) (vx vy : UInt8) :
    operation.Balances vx.toNat vy.toNat (operation.apply vx vy).1.toNat
      (operation.apply vx vy).2.toNat := by
  cases operation with
  | add =>
    have vxBound := vx.toNat_lt
    have vyBound := vy.toNat_lt
    show (vx + vy).toNat + 256 * (decide (256 ≤ vx.toNat + vy.toNat)).toNat = _
    rw [UInt8.toNat_add]
    by_cases carries : 256 ≤ vx.toNat + vy.toNat
    · rw [decide_eq_true carries, Bool.toNat_true]
      omega
    · rw [decide_eq_false carries, Bool.toNat_false]
      omega
  | subtract => exact toNat_sub_balances vx vy
  | subtractFrom => exact toNat_sub_balances vy vx

/-- The value of a shift and the bit shifted out balance. -/
theorem Shift.balances_apply (direction : Shift) (vx : UInt8) :
    direction.Balances vx.toNat (direction.apply vx).1.toNat (direction.apply vx).2.toNat := by
  have bound := vx.toNat_lt
  cases direction with
  | right =>
    have half : (vx >>> 1).toNat = vx.toNat / 2 := UInt8.toNat_shiftRight vx 1
    have parity : (vx % 2 = 1) ↔ vx.toNat % 2 = 1 := by
      rw [← UInt8.toNat_inj, UInt8.toNat_mod]
      rfl
    show 2 * (vx >>> 1).toNat + (decide (vx % 2 = 1)).toNat = vx.toNat
    by_cases odd : vx.toNat % 2 = 1
    · rw [half, decide_eq_true (parity.mpr odd), Bool.toNat_true]
      omega
    · rw [half, decide_eq_false (mt parity.mp odd), Bool.toNat_false]
      omega
  | left =>
    have double : (vx <<< 1).toNat = 2 * vx.toNat % 256 := by
      rw [UInt8.toNat_shiftLeft, Nat.shiftLeft_eq, Nat.mul_comm]
      rfl
    show (vx <<< 1).toNat + 256 * (decide (128 ≤ vx)).toNat = 2 * vx.toNat
    by_cases high : 128 ≤ vx.toNat
    · have raised : (128 : UInt8) ≤ vx := UInt8.le_iff_toNat_le.mpr high
      rw [double, decide_eq_true raised, Bool.toNat_true]
      omega
    · have low : ¬ (128 : UInt8) ≤ vx := fun le => high (UInt8.le_iff_toNat_le.mp le)
      rw [double, decide_eq_false low, Bool.toNat_false]
      omega

/-- An operation undoes another one when it takes a result of that back to the first operand, and
exactly one of the two is flagged. -/
def Arithmetic.Undoes (second first : Arithmetic) : Prop :=
  ∀ vx vy result raised again left : Nat, vx < 256 → again < 256 → raised ≤ 1 → left ≤ 1 →
    first.Balances vx vy result raised → second.Balances result vy again left →
    again = vx ∧ left = 1 - raised

/-- Subtracting undoes adding. -/
theorem Arithmetic.undoes_add : subtract.Undoes add := by
  rintro vx vy result raised again left small low raisedLe leftLe sum ⟨difference, -⟩
  have sum : result + 256 * raised = vx + vy := sum
  omega

/-- Adding undoes subtracting. -/
theorem Arithmetic.undoes_subtract : add.Undoes subtract := by
  rintro vx vy result raised again left small low raisedLe leftLe ⟨difference, -⟩ sum
  have sum : again + 256 * left = result + vy := sum
  omega

namespace Machine

/-- A machine is left with a result in a register and then a flag, both as numbers, which wins if
the register is the flag. -/
structure Flagged (machine : Machine) (x : Register) (next : Machine) (result raised : Nat) :
    Prop where
  result_lt : result < 256
  raised_le : raised ≤ 1
  /-- The flag ends as raised in any case. -/
  flag : (next.register Machine.flag).toNat = raised
  /-- The register holds the result unless it is the flag. -/
  result : x ≠ Machine.flag → (next.register x).toNat = result
  /-- No other register changes. -/
  others : ∀ other, other ≠ x → other ≠ Machine.flag →
    next.register other = machine.register other
  /-- The machine is at the next instruction. -/
  pc : next.pc = machine.pc + 2
  /-- That is two addresses on, unless the program counter wraps around. -/
  counter : machine.pc.toNat < 0xFFFE → next.pc.toNat = machine.pc.toNat + 2

/-- A flagged result is left as it is put. -/
theorem flagged_setFlagged (machine : Machine) (x : Register) (byte : UInt8) (raised : Bool) :
    machine.Flagged x (machine.advance.setFlagged x byte raised) byte.toNat raised.toNat where
  result_lt := byte.toNat_lt
  raised_le := raised.toNat_le
  flag := by
    rw [register_flag_setFlagged]
    cases raised <;> rfl
  result plain := by rw [register_setFlagged _ _ _ _ _ plain, if_pos rfl]
  others other apart plain := by
    rw [register_setFlagged _ _ _ _ _ plain, if_neg apart]
    rfl
  pc := rfl
  counter := toNat_add_two

/-- An operation on two registers is always performed, and leaves a result and a flag that balance
with the operands. -/
theorem perform_arithmetic (machine : Machine) (inputs : Inputs) (operation : Arithmetic)
    (x y : Register) :
    ∃ next result raised, machine.perform inputs (.arithmetic operation x y) = .ok next ∧
      machine.Flagged x next result raised ∧
      operation.Balances (machine.register x).toNat (machine.register y).toNat result raised :=
  ⟨_, _, _, rfl, machine.flagged_setFlagged x _ _, operation.balances_apply _ _⟩

/-- So is a shift of a register. -/
theorem perform_shift (machine : Machine) (inputs : Inputs) (direction : Shift) (x : Register) :
    ∃ next result raised, machine.perform inputs (.shift direction x) = .ok next ∧
      machine.Flagged x next result raised ∧
      direction.Balances (machine.register x).toNat result raised :=
  ⟨_, _, _, rfl, machine.flagged_setFlagged x _ _, direction.balances_apply _⟩

/-- An operation that undoes another one gives the register back, unless the operands are one
register or one of them is the flag. -/
theorem perform_undo (machine : Machine) (inputs again : Inputs) {first second : Arithmetic}
    (undoes : second.Undoes first) {x y : Register} (apart : x ≠ y) (plainX : x ≠ flag)
    (plainY : y ≠ flag) :
    ∃ next last, machine.perform inputs (.arithmetic first x y) = .ok next ∧
      next.perform again (.arithmetic second x y) = .ok last ∧
      last.register x = machine.register x ∧
      (last.register flag).toNat = 1 - (next.register flag).toNat := by
  obtain ⟨next, result, raised, performed, flagged, balances⟩ :=
    machine.perform_arithmetic inputs first x y
  obtain ⟨last, restored, left, undone, reflagged, rebalances⟩ :=
    next.perform_arithmetic again second x y
  rw [flagged.result plainX, flagged.others y apart.symm plainY] at rebalances
  obtain ⟨same, contrary⟩ := undoes _ _ _ _ _ _ (machine.register x).toNat_lt reflagged.result_lt
    flagged.raised_le reflagged.raised_le balances rebalances
  refine ⟨next, last, performed, undone, ?_, ?_⟩
  · rw [← UInt8.toNat_inj, reflagged.result plainX, same]
  · rw [reflagged.flag, flagged.flag, contrary]

/-- Arithmetic with a flag is exact for all registers, be they the same or the flag: result and flag
balance with the operands as they were, the flag is written in any case and the result unless its
register is the flag, and nothing is written to any other register. So for two registers that are
not the flag, adding and then subtracting gives the first one back, and so does subtracting and then
adding; exactly one of the two flags is raised. What is left at the end of a word, where the program
counter wraps around, is left by no checked sum, and everything else by checked sums too
(`Interpreter.perform_flat_eq_ok_iff`). -/
theorem flags_exact (machine : Machine) (inputs again : Inputs) :
    (∀ operation x y, ∃ next result raised,
      machine.perform inputs (.arithmetic operation x y) = .ok next ∧
      machine.Flagged x next result raised ∧
      operation.Balances (machine.register x).toNat (machine.register y).toNat result raised) ∧
    (∀ direction x, ∃ next result raised,
      machine.perform inputs (.shift direction x) = .ok next ∧
      machine.Flagged x next result raised ∧
      direction.Balances (machine.register x).toNat result raised) ∧
    ∀ x y, x ≠ y → x ≠ flag → y ≠ flag →
      (∃ sum difference, machine.perform inputs (.arithmetic .add x y) = .ok sum ∧
        sum.perform again (.arithmetic .subtract x y) = .ok difference ∧
        difference.register x = machine.register x ∧
        (difference.register flag).toNat = 1 - (sum.register flag).toNat) ∧
      ∃ difference sum, machine.perform inputs (.arithmetic .subtract x y) = .ok difference ∧
        difference.perform again (.arithmetic .add x y) = .ok sum ∧
        sum.register x = machine.register x ∧
        (sum.register flag).toNat = 1 - (difference.register flag).toNat := by
  refine ⟨machine.perform_arithmetic inputs, machine.perform_shift inputs, ?_⟩
  intro x y apart plainX plainY
  constructor
  · exact machine.perform_undo inputs again Arithmetic.undoes_add apart plainX plainY
  · exact machine.perform_undo inputs again Arithmetic.undoes_subtract apart plainX plainY

/-- A machine whose registers hold so much that the sum of any two has a carry. -/
def overfull : Machine := { initial with registers := Vector.replicate 16 200 }

/-- The carry is flagged, and taking the second register off again gives the first one back with
something borrowed. -/
theorem flags_exact_overfull :
    (1 : Register) ≠ 2 ∧ 1 ≠ flag ∧ 2 ≠ flag ∧
      ∃ sum difference,
        overfull.perform ⟨.released, .clip, 0⟩ (.arithmetic .add 1 2) = .ok sum ∧
        sum.perform ⟨.released, .clip, 0⟩ (.arithmetic .subtract 1 2) = .ok difference ∧
        (sum.register flag).toNat = 1 ∧ difference.register 1 = 200 ∧
        (difference.register flag).toNat = 0 := by
  have apart : (1 : Register) ≠ 2 := by decide
  have plainX : 1 ≠ flag := by decide
  have plainY : 2 ≠ flag := by decide
  obtain ⟨-, -, undo⟩ := flags_exact overfull ⟨.released, .clip, 0⟩ ⟨.released, .clip, 0⟩
  obtain ⟨⟨sum, difference, added, subtracted, same, contrary⟩, -⟩ := undo 1 2 apart plainX plainY
  have carried : (sum.register flag).toNat = 1 := by
    obtain rfl := Except.ok.inj added
    decide
  refine ⟨apart, plainX, plainY, sum, difference, added, subtracted, carried, ?_, ?_⟩
  · rw [same]
    decide
  · rw [contrary, carried]

end Machine

end Chip8
