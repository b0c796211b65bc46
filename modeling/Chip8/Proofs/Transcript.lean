import Chip8.Proofs.Reachable
import Mathlib.Data.List.DropRight

/-!
# Transcripts

What passes between a host and its interpreter: every command with its reply, in order. Whatever is
said of the past of an interpreter, such as which frames were taken or what the steps answered, is
said of its transcript. `sinceReset_invariant` is the one induction over what has passed since the
last reset: what holds at power-on with nothing past, and is kept by every command but a reset,
holds at any time.
-/

namespace Chip8

/-- A command and its reply. -/
structure Exchange where
  /-- What the host asked for. -/
  command : Command
  /-- What it was answered. -/
  reply : Reply

namespace Exchange

/-- The frame that was handed out. -/
def frame? (exchange : Exchange) : Option Frame :=
  match exchange.reply with
  | .frame taken => taken
  | _ => none

/-- What became of the step. -/
def result? (exchange : Exchange) : Option (Except Fault Outcome) :=
  match exchange.reply with
  | .stepped result => some result
  | _ => none

/-- What the tick asked of the buzzer. -/
def sound? (exchange : Exchange) : Option Sound :=
  match exchange.reply with
  | .ticked sound => some sound
  | _ => none

end Exchange

/-- The frames that were handed out, in order. -/
def framesTaken (exchanges : List Exchange) : List Frame := exchanges.filterMap Exchange.frame?

/-- What became of the steps, in order. -/
def stepResults (exchanges : List Exchange) : List (Except Fault Outcome) :=
  exchanges.filterMap Exchange.result?

/-- What the ticks asked of the buzzer, in order. -/
def tickSounds (exchanges : List Exchange) : List Sound := exchanges.filterMap Exchange.sound?

/-- What has passed since the last reset, which is everything if there was none. -/
def sinceReset (exchanges : List Exchange) : List Exchange :=
  exchanges.rtakeWhile fun exchange => exchange.command ≠ .reset

@[simp] theorem framesTaken_append (first second : List Exchange) :
    framesTaken (first ++ second) = framesTaken first ++ framesTaken second :=
  List.filterMap_append

@[simp] theorem stepResults_append (first second : List Exchange) :
    stepResults (first ++ second) = stepResults first ++ stepResults second :=
  List.filterMap_append

@[simp] theorem tickSounds_append (first second : List Exchange) :
    tickSounds (first ++ second) = tickSounds first ++ tickSounds second :=
  List.filterMap_append

/-- Nothing has passed since a reset that has just been asked for. -/
theorem sinceReset_concat_reset (exchanges : List Exchange) {exchange : Exchange}
    (resets : exchange.command = .reset) : sinceReset (exchanges ++ [exchange]) = [] :=
  List.rtakeWhile_concat_neg _ _ _ (by simp [resets])

/-- Any other exchange comes after what has passed since the last reset. -/
theorem sinceReset_concat (exchanges : List Exchange) {exchange : Exchange}
    (goesOn : exchange.command ≠ .reset) :
    sinceReset (exchanges ++ [exchange]) = sinceReset exchanges ++ [exchange] :=
  List.rtakeWhile_concat_pos _ _ _ (decide_eq_true goesOn)

namespace Interpreter

/-- What passes when a host gives a list of commands. -/
def transcript (interpreter : Interpreter) : List Command → List Exchange
  | [] => []
  | command :: rest =>
    ⟨command, (interpreter.apply command).1⟩ :: (interpreter.apply command).2.transcript rest

/-- What passes in two lists of commands, one after the other. -/
theorem transcript_append (interpreter : Interpreter) (first second : List Command) :
    interpreter.transcript (first ++ second) =
      interpreter.transcript first ++ (interpreter.applyAll first).transcript second := by
  induction first generalizing interpreter with
  | nil => rfl
  | cons command rest ih =>
    rw [List.cons_append, transcript, transcript, ih]
    rfl

/-- What holds at power-on with nothing past, and is kept by every command but a reset, holds of any
interpreter with what has passed since its last reset. -/
theorem sinceReset_invariant {motive : List Exchange → Interpreter → Prop}
    (initial : ∀ settings, motive [] (powerOn settings))
    (apply : ∀ past interpreter command, command ≠ .reset → motive past interpreter →
      motive (past ++ [⟨command, (interpreter.apply command).1⟩]) (interpreter.apply command).2)
    (settings : Settings) (commands : List Command) :
    motive (sinceReset ((powerOn settings).transcript commands))
      ((powerOn settings).applyAll commands) := by
  induction commands using List.reverseRecOn with
  | nil => exact initial settings
  | append_singleton before command ih =>
    rw [applyAll_append, transcript_append, transcript, transcript]
    by_cases resets : command = .reset
    · rw [sinceReset_concat_reset _ resets, resets]
      exact initial _
    · rw [sinceReset_concat _ resets]
      exact apply _ _ command resets ih

end Interpreter

end Chip8
