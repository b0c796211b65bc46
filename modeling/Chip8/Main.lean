import Chip8.CommandLine
import Chip8.Noise
import Chip8.Session

/-!
# The program

Plays the program of a file in the terminal: one tick of a session after another, each as long as
the settings say, with the lines typed meanwhile. Everything that a tick decides is in the session;
here it is only given its lines and its time, and what it hands over is written out.
-/

namespace Chip8.Main

/-- The text for a failure to read a file. -/
def reason : IO.Error → String
  | .noFileOrDirectory .. => noSuchFile
  | other => toString other

/-- Reads a file, or says why it cannot be read. -/
def readProgram (name : String) : IO (Except String (List UInt8)) := do
  try
    let bytes ← IO.FS.readBinFile name
    return .ok bytes.toList
  catch failure =>
    return .error (reason failure)

/-- Collects the lines that are typed until the input ends. -/
partial def collect (input : IO.FS.Stream) (typed : IO.Ref (Array String)) : IO Unit := do
  let line ← input.getLine
  if line.isEmpty then return
  typed.modify fun lines => lines.push line
  collect input typed

/-- Writes out what a session hands over, with the records that are grave enough. -/
def deliver (least : Level) (events : List Event) : IO Unit := do
  let output ← IO.getStdout
  for event in events do
    match event with
    | .output shown =>
      output.putStr (Terminal.text [shown])
      output.flush
    | .record record => if record.level.reaches least then IO.eprintln record.line

/-- Waits until the time of a tick is over. -/
def rest (start interval : Nat) : IO Unit := do
  let now ← IO.monoNanosNow
  if now < start + interval then
    IO.sleep (UInt32.ofNat ((start + interval - now) / 1000000))

/-- Plays a session to its end. -/
partial def play (least : Level) (noise : Noise) (typed : IO.Ref (Array String))
    (session : Session) : IO (Option Ending) := do
  let start ← IO.monoNanosNow
  let lines ← typed.modifyGet fun lines => (lines, #[])
  let session := session.tick lines.toList noise.byte
  deliver least session.pending
  match session.ending with
  | some ending => return some ending
  | none =>
    rest start session.clock.interval.toNat
    play least noise typed session.drain

/-- Says that the program failed. -/
def complain (message : String) : IO UInt32 := do
  IO.eprintln s!"{Level.error.name} {message}"
  return 1

/-- Plays what a command line asks for. -/
def run (options : Options) : IO UInt32 := do
  let least := ((← IO.getEnv "CHIP8_LOG").bind fun name => Level.ofName? name.toUpper).getD .error
  let program ← readProgram options.program
  let limit := options.cycles.map fun limit => limit.toNat
  match Session.start options.settings options.program program limit with
  | .error fault => complain fault.message
  | .ok session =>
    let typed ← IO.mkRef #[]
    let _ ← IO.asTask (collect (← IO.getStdin) typed) Task.Priority.dedicated
    match ← play least ⟨(← IO.monoNanosNow).toUInt64⟩ typed session with
    | some (.fault fault) => complain fault.message
    | _ => return 0

end Chip8.Main

/-- The command line of the program: a file and how it is to be played. -/
def main (arguments : List String) : IO UInt32 := do
  match Chip8.CommandLine.parse arguments with
  | .ok options => Chip8.Main.run options
  | .error .helpRequested =>
    IO.println Chip8.UsageFault.usage
    return 0
  | .error fault =>
    IO.eprintln fault.message
    return 2
