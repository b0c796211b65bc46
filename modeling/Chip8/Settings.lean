/-!
# Settings

How fast the machine and its timers run, and what becomes of a sprite at the edge of the display.
Both rates have to be positive; the rate of the machine is looked at first.
-/

namespace Chip8

/-- What becomes of the part of a sprite that lies beyond the edge of the display. -/
inductive Edge
  /-- It is not drawn. -/
  | clip
  /-- It is drawn from the opposite edge on. -/
  | wrap
  deriving DecidableEq, Repr

/-- The settings of a machine. -/
structure Settings where
  /-- What becomes of sprites at the edge. -/
  edge : Edge := .clip
  /-- Instructions per second. -/
  cpuRate : UInt32 := 500
  /-- Timer ticks per second. -/
  timerRate : UInt32 := 60
  deriving DecidableEq, Repr

/-- Why settings are refused. -/
inductive SettingsFault
  /-- No instruction would ever run. -/
  | noCpuRate
  /-- No tick would ever come. -/
  | noTimerRate
  deriving DecidableEq, Repr

namespace SettingsFault

/-- The wording of a refusal for a given reason. -/
def wording (reason : String) : String := s!"invalid configuration: {reason}"

/-- The reason of a refusal. -/
def reason : SettingsFault → String
  | .noCpuRate => "cpu_hz must be non-zero"
  | .noTimerRate => "timer_hz must be non-zero"

/-- The wording of a refusal. -/
def message (fault : SettingsFault) : String := wording fault.reason

end SettingsFault

namespace Settings

/-- The settings in use when none are given. -/
def standard : Settings := {}

/-- Accepts the settings under which a machine can run. -/
def check (settings : Settings) : Except SettingsFault Unit :=
  if settings.cpuRate = 0 then .error .noCpuRate
  else if settings.timerRate = 0 then .error .noTimerRate
  else .ok ()

/-- Settings are accepted exactly when both rates are positive. -/
theorem check_eq_ok_iff (settings : Settings) :
    settings.check = .ok () ↔ settings.cpuRate ≠ 0 ∧ settings.timerRate ≠ 0 := by
  unfold check
  split
  case isTrue none => simp [none]
  case isFalse some => split <;> simp_all

end Settings

end Chip8
