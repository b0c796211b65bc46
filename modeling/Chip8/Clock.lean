import Chip8.Settings

/-!
# The clock

The machine runs at one rate and its timers at another. The clock spreads the cycles of a second
over its ticks as evenly as whole cycles allow, by carrying what a tick leaves over to the next.
-/

namespace Chip8

/-- The rates, and what earlier ticks left over, in cycles times ticks. -/
structure Clock where
  /-- Cycles per second. -/
  cpuRate : UInt64
  /-- Ticks per second. -/
  timerRate : UInt64
  /-- What earlier ticks left over. -/
  remainder : UInt64
  deriving DecidableEq, Repr

namespace Clock

/-- The clock of some settings; a rate of no ticks counts as one tick. -/
def ofSettings (settings : Settings) : Clock :=
  ⟨settings.cpuRate.toUInt64, (max settings.timerRate 1).toUInt64, 0⟩

/-- The number of cycles before the next tick, and the clock after it. -/
def next (clock : Clock) : UInt32 × Clock :=
  let total := clock.remainder + clock.cpuRate
  ((total / clock.timerRate).toUInt32, { clock with remainder := total % clock.timerRate })

/-- The clock after a number of ticks, with the cycles before each of them. -/
def ticks : Nat → Clock → List UInt32 × Clock
  | 0, clock => ([], clock)
  | count + 1, clock =>
    let (cycles, later) := clock.next
    let (rest, last) := ticks count later
    (cycles :: rest, last)

/-- The time from one tick to the next in nanoseconds, rounded down. -/
def interval (clock : Clock) : UInt64 := 1000000000 / clock.timerRate

end Clock

end Chip8
