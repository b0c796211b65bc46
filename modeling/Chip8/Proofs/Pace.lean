import Chip8.Clock
import Mathlib.Order.Bounds.Basic
import Mathlib.Order.Nat

/-!
# Pace

A number of ticks is as many whole cycles long as its share of a second allows, and the clock hands
out exactly those: before each tick it gives the cycles by which the length grows, and carries what
is left of the division. Nothing overflows on the way, because what is carried is less than the rate
of the ticks. A number of cycles is therefore done in the last tick before which no more cycles are
due.
-/

namespace Chip8

namespace Settings

/-- The number of ticks in a second; a rate of no ticks counts as one tick. -/
def tickRate (settings : Settings) : Nat := max settings.timerRate.toNat 1

/-- The number of whole cycles in a number of ticks. -/
def due (settings : Settings) (ticks : Nat) : Nat :=
  ticks * settings.cpuRate.toNat / settings.tickRate

/-- What a number of ticks has beside whole cycles. -/
def left (settings : Settings) (ticks : Nat) : Nat :=
  ticks * settings.cpuRate.toNat % settings.tickRate

/-- There is a tick in every second. -/
theorem tickRate_pos (settings : Settings) : 0 < settings.tickRate :=
  Nat.lt_of_lt_of_le Nat.zero_lt_one (Nat.le_max_right _ _)

/-- The rate of settings that are accepted is counted as it is. -/
theorem tickRate_of_accepted {settings : Settings} (accepted : settings.check = .ok ()) :
    settings.tickRate = settings.timerRate.toNat := by
  have some := ((settings.check_eq_ok_iff).mp accepted).2
  have positive : settings.timerRate.toNat ≠ 0 := fun zero => some (UInt32.toNat_inj.mp zero)
  unfold tickRate
  omega

/-- The cycles of accepted settings are a share of their cycles in a second. -/
theorem due_of_accepted {settings : Settings} (accepted : settings.check = .ok ()) (ticks : Nat) :
    settings.due ticks = ticks * settings.cpuRate.toNat / settings.timerRate.toNat := by
  rw [due, tickRate_of_accepted accepted]

/-- What is left over is less than the rate. -/
theorem left_lt (settings : Settings) (ticks : Nat) : settings.left ticks < settings.tickRate :=
  Nat.mod_lt _ settings.tickRate_pos

/-- A tick adds the whole cycles in what was left over and the cycles of one tick. -/
theorem due_succ (settings : Settings) (ticks : Nat) :
    settings.due (ticks + 1) = settings.due ticks +
      (settings.left ticks + settings.cpuRate.toNat) / settings.tickRate := by
  have parts := Nat.div_add_mod (ticks * settings.cpuRate.toNat) settings.tickRate
  unfold due left
  rw [Nat.succ_mul]
  conv_lhs => rw [← parts, Nat.add_assoc, Nat.mul_add_div settings.tickRate_pos]

/-- What is left over of those is left over after the tick. -/
theorem left_succ (settings : Settings) (ticks : Nat) :
    settings.left (ticks + 1) =
      (settings.left ticks + settings.cpuRate.toNat) % settings.tickRate := by
  unfold left
  rw [Nat.succ_mul, Nat.mod_add_mod]

/-- More ticks are at least as many cycles long. -/
theorem due_mono (settings : Settings) {fewer more : Nat} (le : fewer ≤ more) :
    settings.due fewer ≤ settings.due more :=
  Nat.div_le_div_right (Nat.mul_le_mul_right _ le)

/-- If the timers are not faster than the machine, every tick has a cycle. -/
theorem due_lt_succ (settings : Settings) (fast : settings.tickRate ≤ settings.cpuRate.toNat)
    (ticks : Nat) : settings.due ticks < settings.due (ticks + 1) := by
  have share : 0 < (settings.left ticks + settings.cpuRate.toNat) / settings.tickRate :=
    Nat.div_pos (by omega) settings.tickRate_pos
  rw [due_succ]
  omega

/-- Enough ticks are longer than any number of cycles, unless no cycle ever runs. -/
theorem lt_due (settings : Settings) (runs : settings.cpuRate ≠ 0) (cycles : Nat) :
    cycles < settings.due ((cycles + 1) * settings.tickRate) := by
  have rate : 0 < settings.cpuRate.toNat := by
    apply Nat.pos_of_ne_zero
    intro zero
    exact runs (UInt32.toNat_inj.mp zero)
  have whole : settings.due ((cycles + 1) * settings.tickRate) =
      (cycles + 1) * settings.cpuRate.toNat := by
    unfold due
    rw [Nat.mul_right_comm, Nat.mul_div_cancel _ settings.tickRate_pos]
  calc
    cycles < (cycles + 1) * 1 := by omega
    _ ≤ (cycles + 1) * settings.cpuRate.toNat := Nat.mul_le_mul_left _ rate
    _ = settings.due ((cycles + 1) * settings.tickRate) := whole.symm

/-- The ticks that are done with a number of cycles are those before the tick in which more cycles
are due. -/
theorem isGreatest_due (settings : Settings) {ticks cycles : Nat}
    (low : settings.due ticks ≤ cycles) (high : cycles < settings.due (ticks + 1)) :
    IsGreatest {count | settings.due count ≤ cycles} ticks := by
  refine ⟨low, ?_⟩
  intro count within
  by_contra beyond
  have later : settings.due (ticks + 1) ≤ settings.due count := settings.due_mono (by omega)
  have : settings.due count ≤ cycles := within
  omega

end Settings

namespace Clock

/-- A clock has counted a number of ticks at the rates of some settings. -/
structure Counted (clock : Clock) (settings : Settings) (ticks : Nat) : Prop where
  cpuRate : clock.cpuRate.toNat = settings.cpuRate.toNat
  timerRate : clock.timerRate.toNat = settings.tickRate
  remainder : clock.remainder.toNat = settings.left ticks

/-- The clock of some settings has counted no tick. -/
theorem counted_ofSettings (settings : Settings) : (ofSettings settings).Counted settings 0 where
  cpuRate := UInt32.toNat_toUInt64 _
  timerRate := by
    have one : (1 : UInt32).toNat = 1 := rfl
    show (max settings.timerRate 1).toUInt64.toNat = max settings.timerRate.toNat 1
    rw [UInt32.toNat_toUInt64, UInt32.max_def]
    split
    case isTrue low =>
      have : settings.timerRate.toNat ≤ 1 := UInt32.le_iff_toNat_le.mp low
      omega
    case isFalse high =>
      have : ¬ settings.timerRate.toNat ≤ 1 := fun low => high (UInt32.le_iff_toNat_le.mpr low)
      omega
  remainder := by
    unfold Settings.left
    rw [Nat.zero_mul, Nat.zero_mod]
    rfl

variable {clock : Clock} {settings : Settings} {ticks : Nat}

/-- What is carried and what is added make no more than a word. -/
theorem Counted.toNat_total (counted : clock.Counted settings ticks) :
    (clock.remainder + clock.cpuRate).toNat =
      settings.left ticks + settings.cpuRate.toNat := by
  have rate := settings.cpuRate.toNat_lt
  have timer := settings.timerRate.toNat_lt
  have carried : settings.left ticks < max settings.timerRate.toNat 1 := settings.left_lt ticks
  rw [UInt64.toNat_add, counted.remainder, counted.cpuRate, Nat.mod_eq_of_lt]
  omega

/-- Going on to the next tick counts one tick more. -/
theorem Counted.next (counted : clock.Counted settings ticks) :
    clock.next.2.Counted settings (ticks + 1) where
  cpuRate := counted.cpuRate
  timerRate := counted.timerRate
  remainder := by
    show ((clock.remainder + clock.cpuRate) % clock.timerRate).toNat = _
    rw [UInt64.toNat_mod, counted.toNat_total, counted.timerRate, settings.left_succ]

/-- No tick has more cycles than a second. -/
theorem share_le (settings : Settings) (ticks : Nat) :
    (settings.left ticks + settings.cpuRate.toNat) / settings.tickRate ≤
      settings.cpuRate.toNat := by
  have carried := settings.left_lt ticks
  have several := Nat.le_mul_of_pos_left settings.cpuRate.toNat settings.tickRate_pos
  apply Nat.le_of_lt_succ
  rw [Nat.div_lt_iff_lt_mul settings.tickRate_pos, Nat.succ_mul, Nat.mul_comm]
  omega

/-- The cycles before the next tick are those by which one more tick is longer. -/
theorem Counted.due_next (counted : clock.Counted settings ticks) :
    settings.due ticks + clock.next.1.toNat = settings.due (ticks + 1) := by
  have rate := settings.cpuRate.toNat_lt
  have share := share_le settings ticks
  have given : clock.next.1.toNat =
      (settings.left ticks + settings.cpuRate.toNat) / settings.tickRate := by
    show ((clock.remainder + clock.cpuRate) / clock.timerRate).toUInt32.toNat = _
    rw [UInt64.toNat_toUInt32, UInt64.toNat_div, counted.toNat_total, counted.timerRate,
      Nat.mod_eq_of_lt (by omega)]
  rw [given, settings.due_succ]

end Clock

end Chip8
