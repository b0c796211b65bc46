import Chip8.Clock
import Chip8.Keyboard
import Chip8.Terminal

/-!
# Sessions

A session plays one program in the terminal, tick by tick: a tick takes in what was typed, runs
its share of the cycles, counts the timers down, rings the bell if the sound timer ran out, and
shows the frame if it has changed. A session ends with the first fault, or when a cycle is due
beyond those that it is allowed; the tick is then left unfinished.
-/

namespace Chip8

/-- The reason for which a file that does not exist cannot be read. -/
def noSuchFile : String := "No such file or directory (os error 2)"

/-- Why a session does not start. -/
inductive StartFault
  /-- The settings are refused. -/
  | settings (fault : SettingsFault)
  /-- The program of a file cannot be read. -/
  | unreadable (name reason : String)
  /-- The program is refused. -/
  | load (fault : LoadFault)
  deriving DecidableEq, Repr

namespace StartFault

/-- The wording of the reason for which a session does not start. -/
def message : StartFault → String
  | .settings fault => fault.message
  | .unreadable name reason => s!"unable to read {name}: {reason}"
  | .load fault => fault.message

end StartFault

/-- Something that a session hands to its host. -/
inductive Event
  /-- A record for the journal. -/
  | record (record : Record)
  /-- Something to hear or see. -/
  | output (output : Terminal.Output)
  deriving DecidableEq

/-- Why a session has ended. -/
inductive Ending
  /-- A cycle was due beyond those allowed. -/
  | limit
  /-- A cycle faulted. -/
  | fault (fault : Fault)
  deriving DecidableEq, Repr

/-- A program being played. -/
structure Session where
  /-- The interpreter that runs the program. -/
  interpreter : Interpreter
  /-- What was typed, and the keys that are held. -/
  keyboard : Keyboard
  /-- The pace of the cycles. -/
  clock : Clock
  /-- The number of cycles allowed, if there is a limit. -/
  limit : Option Nat
  /-- The number of cycles begun. -/
  cycles : Nat
  /-- Whether the wait for a key that goes on was noted down. -/
  announced : Bool
  /-- What the host has not been handed yet, the newest first. -/
  events : List Event
  /-- Why the session has ended, if it has. -/
  ending : Option Ending
  deriving DecidableEq

namespace Session

/-- The session with something more for the host. -/
def emit (session : Session) (event : Event) : Session :=
  { session with events := event :: session.events }

/-- The session with more records for the journal. -/
def note (session : Session) (records : List Record) : Session :=
  records.foldl (fun session record => session.emit (.record record)) session

/-- What the host has not been handed yet, in the order in which it happened. -/
def pending (session : Session) : List Event := session.events.reverse

/-- The session once its host has been handed everything. -/
def drain (session : Session) : Session := { session with events := [] }

/-- The session that plays the program of a file, before its first tick. The program is what the
file holds, or the reason for which it cannot be read. -/
def start (settings : Settings) (name : String) (program : Except String (List UInt8))
    (limit : Option Nat) : Except StartFault Session :=
  match Interpreter.create settings, program with
  | .error fault, _ => .error (.settings fault)
  | .ok _, .error reason => .error (.unreadable name reason)
  | .ok interpreter, .ok program =>
    match interpreter.load program with
    | (.error fault, _) => .error (.load fault)
    | (.ok (), loaded) =>
      .ok (note ⟨loaded, .idle, .ofSettings settings, limit, 0, false, [], none⟩
        [.programLoaded program.length, .fileLoaded name program.length])

/-- Whether no more cycles are allowed. -/
def exhausted (session : Session) : Bool := session.limit.any fun limit => limit ≤ session.cycles

/-- The session at its end, which is noted down unless it is a fault. -/
def finish (session : Session) (ending : Ending) : Session :=
  let ended := { session with ending := some ending }
  match ending with
  | .limit => ended.note [.stopped session.cycles]
  | .fault _ => ended

/-- The session after an outcome: a wait for a key is noted down as it begins. -/
def follow (session : Session) (outcome : Outcome) : Session :=
  match outcome with
  | .executed _ => { session with announced := false }
  | .awaiting x =>
    if session.announced then session
    else { session with announced := true }.note [.awaiting x]

/-- The session after one more cycle, or at its end if none is allowed or the cycle faults. -/
def cycle (session : Session) (random : UInt8) : Session :=
  if session.exhausted then session.finish .limit
  else
    let noted := session.note (session.interpreter.stepRecords random)
    match session.interpreter.step random with
    | (.error fault, _) => { noted with cycles := session.cycles + 1 }.finish (.fault fault)
    | (.ok outcome, interpreter) =>
      { noted with cycles := session.cycles + 1, interpreter }.follow outcome

/-- The session after a number of cycles, or at its end. -/
def burst (random : Nat → UInt8) : Nat → Session → Session
  | 0, session => session
  | count + 1, session =>
    match session.ending with
    | some _ => session
    | none => burst random count (session.cycle (random session.cycles))

/-- The session with the lines taken in that have come in. -/
def takeIn (session : Session) (lines : List String) : Session :=
  let keyboard := lines.foldl Keyboard.type session.keyboard
  let noted := session.note keyboard.records
  let (keyboard, interpreter) := keyboard.update session.interpreter
  { noted with keyboard, interpreter }

/-- The session after its timers have counted down, with the bell if one of them says so. -/
def countDown (session : Session) : Session :=
  match session.interpreter.tick with
  | (.silent, interpreter) => { session with interpreter }
  | (.beep, interpreter) => { session with interpreter }.emit (.output .bell)

/-- The session after the frame has been shown, if it has changed. -/
def refresh (session : Session) : Session :=
  match session.interpreter.takeFrame with
  | (none, _) => session
  | (some frame, interpreter) => { session with interpreter }.emit (.output (.frame frame))

/-- The session after one tick, at the start of which `lines` have come in. The byte that the
machine cannot foresee in a cycle is the one at its number. -/
def tick (session : Session) (lines : List String) (random : Nat → UInt8) : Session :=
  match session.ending with
  | some _ => session
  | none =>
    let (count, clock) := session.clock.next
    let after := burst random count.toNat ({ session with clock }.takeIn lines)
    match after.ending with
    | some _ => after
    | none => after.countDown.refresh

/-- The session after a number of ticks, with the lines that have come in at the start of each. -/
def run (lines : Nat → List String) (random : Nat → UInt8) : Nat → Session → Session
  | 0, session => session
  | count + 1, session => (run lines random count session).tick (lines count) random

/-- A session that has ended stays as it is. -/
theorem tick_of_ended (session : Session) (lines : List String) (random : Nat → UInt8)
    (ending : Ending) (ended : session.ending = some ending) :
    session.tick lines random = session := by
  simp [tick, ended]

/-- Something more comes after what the host has not been handed yet. -/
@[simp] theorem pending_emit (session : Session) (event : Event) :
    (session.emit event).pending = session.pending ++ [event] := by
  simp [emit, pending]

/-- More records come after what the host has not been handed yet, in their order. -/
@[simp] theorem pending_note (session : Session) (records : List Record) :
    (session.note records).pending = session.pending ++ records.map .record := by
  unfold note
  induction records generalizing session with
  | nil => simp
  | cons record rest ih => rw [List.foldl_cons, ih]; simp

/-- What the user hears and sees of some events. -/
def outputs (events : List Event) : List Terminal.Output :=
  events.filterMap fun
    | .output output => some output
    | .record _ => none

/-- What the journal holds of some events. -/
def records (events : List Event) : List Record :=
  events.filterMap fun
    | .record record => some record
    | .output _ => none

end Session

end Chip8
