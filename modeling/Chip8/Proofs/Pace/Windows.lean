import Chip8.Proofs.Pace
import Mathlib.Algebra.Order.Floor.Div

/-!
# Windows of ticks

A window is a run of ticks that follow each other, and it may start anywhere. Its cycles are those
by which the length of all ticks so far grows over it, so they are the whole part of its share of a
second, or one more if what was left over before it makes up another cycle. Windows of one length
are therefore equal up to one cycle, and a window of a second has exactly the cycles of a second.
-/

namespace Chip8

namespace Settings

/-- The length of a window is added to that of the ticks before it, and what both leave over may
make up one cycle more. -/
theorem due_add (settings : Settings) (start count : Nat) :
    settings.due (start + count) = settings.due start + settings.due count +
      if settings.tickRate ≤ settings.left start + settings.left count then 1 else 0 := by
  unfold due left
  rw [Nat.add_mul, Nat.add_div settings.tickRate_pos]

/-- A number of ticks that leaves something over has its share of cycles rounded up to one more. -/
theorem ceilDiv_of_left_pos (settings : Settings) {count : Nat} (some : 0 < settings.left count) :
    count * settings.cpuRate.toNat ⌈/⌉ settings.tickRate = settings.due count + 1 := by
  have positive := settings.tickRate_pos
  have parts : settings.tickRate * settings.due count + settings.left count =
      count * settings.cpuRate.toNat := Nat.div_add_mod _ _
  have carried := settings.left_lt count
  have rounded : count * settings.cpuRate.toNat + settings.tickRate - 1 =
      settings.tickRate * (settings.due count + 1) + (settings.left count - 1) := by
    rw [← parts, Nat.mul_succ]
    omega
  rw [Nat.ceilDiv_eq_add_pred_div, rounded, Nat.mul_add_div positive,
    Nat.div_eq_of_lt (by omega : settings.left count - 1 < settings.tickRate), Nat.add_zero]

/-- A window has its share of cycles, rounded down or up. -/
theorem due_window (settings : Settings) (start count : Nat) :
    settings.due (start + count) = settings.due start + settings.due count ∨
      settings.due (start + count) =
        settings.due start + count * settings.cpuRate.toNat ⌈/⌉ settings.tickRate := by
  rw [settings.due_add]
  by_cases carries : settings.tickRate ≤ settings.left start + settings.left count
  · have before := settings.left_lt start
    rw [if_pos carries, settings.ceilDiv_of_left_pos (by omega)]
    exact .inr (Nat.add_assoc _ _ _)
  · rw [if_neg carries]
    exact .inl rfl

/-- A window of a second has the cycles of a second. -/
theorem due_add_tickRate (settings : Settings) (start : Nat) :
    settings.due (start + settings.tickRate) = settings.due start + settings.cpuRate.toNat := by
  unfold due
  rw [Nat.add_mul, Nat.add_mul_div_left _ _ settings.tickRate_pos]

end Settings

namespace Clock

/-- The cycles that a clock gives in the next ticks, taken together. -/
def cycles (clock : Clock) (count : Nat) : Nat := ((clock.ticks count).1.map UInt32.toNat).sum

/-- The clock after some ticks. -/
def after (clock : Clock) (count : Nat) : Clock := (clock.ticks count).2

/-- The words of a clock do what numbers would: what it adds up for the next tick fits a word, what
it divides by is not zero, and the quotient fits the half word that it is given as. -/
structure Exact (clock : Clock) : Prop where
  total : clock.remainder.toNat + clock.cpuRate.toNat < 2 ^ 64
  divisor : clock.timerRate ≠ 0
  quotient : (clock.remainder.toNat + clock.cpuRate.toNat) / clock.timerRate.toNat < 2 ^ 32

/-- The cycles of some ticks are those of the first and those of the others. -/
theorem cycles_succ (clock : Clock) (count : Nat) :
    clock.cycles (count + 1) = clock.next.1.toNat + clock.next.2.cycles count := by
  rw [cycles, ticks, List.map_cons, List.sum_cons]
  rfl

variable {clock : Clock} {settings : Settings} {ticks : Nat}

/-- After more ticks a clock has counted as many more. -/
theorem Counted.after (counted : clock.Counted settings ticks) (count : Nat) :
    (clock.after count).Counted settings (ticks + count) := by
  induction count generalizing clock ticks with
  | zero => exact counted
  | succ count ih =>
    rw [← Nat.add_assoc, Nat.add_right_comm]
    exact ih counted.next

/-- The cycles of a window are those by which all ticks so far grow longer over it. -/
theorem Counted.due_cycles (counted : clock.Counted settings ticks) (count : Nat) :
    settings.due ticks + clock.cycles count = settings.due (ticks + count) := by
  induction count generalizing clock ticks with
  | zero => rfl
  | succ count ih =>
    have later := ih counted.next
    rw [cycles_succ, ← Nat.add_assoc, counted.due_next, later, Nat.add_right_comm]
    rfl

/-- A clock that has counted ticks at the rates of some settings is exact. -/
theorem Counted.exact (counted : clock.Counted settings ticks) : clock.Exact := by
  have rate := settings.cpuRate.toNat_lt
  have timer := settings.timerRate.toNat_lt
  have carried : settings.left ticks < max settings.timerRate.toNat 1 := settings.left_lt ticks
  constructor
  case total =>
    rw [counted.remainder, counted.cpuRate]
    omega
  case divisor =>
    intro zero
    have none : clock.timerRate.toNat = 0 := congrArg UInt64.toNat zero
    have positive := settings.tickRate_pos
    rw [counted.timerRate] at none
    omega
  case quotient =>
    rw [counted.remainder, counted.cpuRate, counted.timerRate]
    exact Nat.lt_of_le_of_lt (share_le settings ticks) rate

/-- The clock of some settings after some ticks has counted them. -/
theorem counted_after (settings : Settings) (count : Nat) :
    ((ofSettings settings).after count).Counted settings count := by
  have counted := (counted_ofSettings settings).after count
  rwa [Nat.zero_add] at counted

/-- The clock of some settings spreads cycles evenly. The cycles of the ticks so far are their share
of a second, rounded down, and what the division leaves is carried. From wherever the clock has got
to, the ticks of a second have the cycles of a second, any other window has its share rounded down
or up, so that two windows of one length differ by a cycle at most, and the words of the clock do
what numbers would. -/
theorem ticks_even (settings : Settings) :
    (∀ count,
      (ofSettings settings).cycles count =
        count * settings.cpuRate.toNat / max settings.timerRate.toNat 1 ∧
      ((ofSettings settings).after count).remainder.toNat =
        count * settings.cpuRate.toNat % max settings.timerRate.toNat 1) ∧
    ∀ start,
      ((ofSettings settings).after start).cycles (max settings.timerRate.toNat 1) =
        settings.cpuRate.toNat ∧
      (∀ count,
        ((ofSettings settings).after start).cycles count =
          count * settings.cpuRate.toNat / max settings.timerRate.toNat 1 ∨
        ((ofSettings settings).after start).cycles count =
          count * settings.cpuRate.toNat ⌈/⌉ max settings.timerRate.toNat 1) ∧
      (∀ other count, ((ofSettings settings).after start).cycles count ≤
        ((ofSettings settings).after other).cycles count + 1) ∧
      ((ofSettings settings).after start).Exact := by
  have counted := counted_after settings
  refine ⟨fun count => ⟨?_, (counted count).remainder⟩, fun start => ⟨?_, ?_, ?_, ?_⟩⟩
  · have whole := (counted_ofSettings settings).due_cycles count
    rw [Nat.zero_add] at whole
    have none : settings.due 0 = 0 := by rw [Settings.due, Nat.zero_mul, Nat.zero_div]
    rw [none, Nat.zero_add] at whole
    exact whole
  · have window := (counted start).due_cycles settings.tickRate
    rw [settings.due_add_tickRate] at window
    exact Nat.add_left_cancel window
  · intro count
    have window := (counted start).due_cycles count
    obtain down | up := settings.due_window start count
    · rw [down] at window
      exact .inl (Nat.add_left_cancel window)
    · rw [up] at window
      exact .inr (Nat.add_left_cancel window)
  · intro other count
    have window := (counted start).due_cycles count
    have another := (counted other).due_cycles count
    rw [settings.due_add] at window another
    split at window <;> split at another <;> omega
  · exact (counted start).exact

end Clock

end Chip8
