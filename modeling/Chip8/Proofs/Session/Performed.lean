import Chip8.Proofs.Reachable
import Chip8.Proofs.Transcript
import Chip8.Session

/-!
# What a session does with its interpreter

A session is a host: it lets go of keys and puts keys down, steps, counts the timers down and takes
the frame. The commands that it gives in each tick are listed here, next to the functions of the
session that give them, and `interpreter_run` says that nothing else happens to the interpreter.
What a cycle does to the rest of the session is said once, in `cycle_cases`.
-/

namespace Chip8

/-- The command that puts a key down or up. -/
def Command.ofKey (isDown : Bool) (key : Key) : Command :=
  if isDown then .press key.toByte else .release key.toByte

/-- Putting a key down or up is never refused and touches that key alone. -/
theorem Interpreter.apply_ofKey (interpreter : Interpreter) (isDown : Bool) (key : Key) :
    interpreter.apply (.ofKey isDown key) =
      (.keySet (.ok ()), { interpreter with keys := interpreter.keys.set key isDown }) := by
  cases isDown <;> simp [Command.ofKey, apply, setKey]

/-- Putting keys down or up one after the other sets them all. -/
theorem Interpreter.applyAll_ofKey (interpreter : Interpreter) (isDown : Bool) (keys : List Key) :
    interpreter.applyAll (keys.map (.ofKey isDown)) =
      { interpreter with keys := Keyboard.setAll interpreter.keys keys isDown } := by
  induction keys generalizing interpreter with
  | nil => rfl
  | cons key rest ih =>
    show (interpreter.apply (.ofKey isDown key)).2.applyAll (rest.map (.ofKey isDown)) = _
    rw [ih, apply_ofKey]
    rfl

/-- Putting keys down or up makes no steps and no ticks. -/
theorem Interpreter.heard_ofKey (interpreter : Interpreter) (isDown : Bool) (keys : List Key) :
    stepResults (interpreter.transcript (keys.map (.ofKey isDown))) = [] ∧
      tickSounds (interpreter.transcript (keys.map (.ofKey isDown))) = [] := by
  induction keys generalizing interpreter with
  | nil => exact ⟨rfl, rfl⟩
  | cons key rest ih =>
    obtain ⟨steps, ticks⟩ := ih (interpreter.apply (.ofKey isDown key)).2
    have head : (interpreter.apply (.ofKey isDown key)).1 = .keySet (.ok ()) := by
      rw [apply_ofKey]
    rw [List.map_cons, transcript, head]
    exact ⟨steps, ticks⟩

namespace Keyboard

/-- What an update asks of the interpreter. -/
def commands (keyboard : Keyboard) : List Command :=
  keyboard.held.map (.ofKey false) ++ keyboard.taps.map (.ofKey true)

/-- An update does to the interpreter what it asks for. -/
theorem applyAll_commands (keyboard : Keyboard) (interpreter : Interpreter) :
    interpreter.applyAll keyboard.commands = (keyboard.update interpreter).2 := by
  rw [commands, Interpreter.applyAll_append, Interpreter.applyAll_ofKey,
    Interpreter.applyAll_ofKey]
  rfl

/-- An update makes no steps and no ticks. -/
theorem heard_commands (keyboard : Keyboard) (interpreter : Interpreter) :
    stepResults (interpreter.transcript keyboard.commands) = [] ∧
      tickSounds (interpreter.transcript keyboard.commands) = [] := by
  obtain ⟨upSteps, upTicks⟩ := interpreter.heard_ofKey false keyboard.held
  obtain ⟨downSteps, downTicks⟩ :=
    (interpreter.applyAll (keyboard.held.map (.ofKey false))).heard_ofKey true keyboard.taps
  rw [commands, Interpreter.transcript_append, stepResults_append, tickSounds_append, upSteps,
    upTicks, downSteps, downTicks]
  exact ⟨rfl, rfl⟩

end Keyboard

namespace Session

/-- More records change nothing but what the host has not been handed yet. -/
theorem note_eq (session : Session) (records : List Record) :
    session.note records =
      { session with events := (records.map Event.record).reverse ++ session.events } := by
  induction records generalizing session with
  | nil => rfl
  | cons record rest ih =>
    show (session.emit (.record record)).note rest = _
    rw [ih]
    simp [emit]

/-- What follows an outcome is noted down and changes nothing else of account. -/
theorem follow_cases (session : Session) (outcome : Outcome) :
    ∃ announced records, session.follow outcome =
      { session with announced, events := List.map Event.record records ++ session.events } := by
  unfold follow
  split
  case h_1 => exact ⟨false, [], rfl⟩
  case h_2 x =>
    split
    case isTrue told => exact ⟨session.announced, [], rfl⟩
    case isFalse => exact ⟨true, [.awaiting x], by rw [note_eq]; rfl⟩

/-- A cycle ends the session if none is allowed; it ends it with the fault of the step if that
faults, and the fault is the last thing that is noted down; or it goes on with what the step
leaves. -/
theorem cycle_cases (session : Session) (random : UInt8) :
    (session.exhausted = true ∧ session.cycle random =
      { session with
        ending := some .limit
        events := .record (.stopped session.cycles) :: session.events }) ∨
    (session.exhausted = false ∧ ∃ fault records,
      (session.interpreter.step random).1 = .error fault ∧
      (session.interpreter.step random).2 = session.interpreter ∧
      session.cycle random =
        { session with
          cycles := session.cycles + 1
          ending := some (.fault fault)
          events := .record (.faulted session.interpreter.machine.pc fault) ::
            (List.map Event.record records ++ session.events) }) ∨
    (session.exhausted = false ∧ ∃ outcome announced records,
      (session.interpreter.step random).1 = .ok outcome ∧
      session.cycle random =
        { session with
          interpreter := (session.interpreter.step random).2
          cycles := session.cycles + 1
          announced
          events := List.map Event.record records ++ session.events }) := by
  unfold cycle
  cases exhausted : session.exhausted with
  | true => exact .inl ⟨rfl, rfl⟩
  | false =>
    refine .inr ?_
    rw [if_neg Bool.false_ne_true, note_eq]
    cases stepped : (session.interpreter.step random).1 with
    | error fault =>
      have left := Interpreter.step_left_of_error stepped
      have answer : session.interpreter.step random = (.error fault, session.interpreter) :=
        Prod.ext stepped left
      have recorded : session.interpreter.stepRecords random =
          session.interpreter.machine.records ++
            [.faulted session.interpreter.machine.pc fault] := by
        rw [Interpreter.stepRecords, stepped]
      refine .inl ⟨rfl, fault, session.interpreter.machine.records.reverse, rfl, left, ?_⟩
      rw [recorded, answer]
      simp [finish]
    | ok outcome =>
      have answer : session.interpreter.step random =
          (.ok outcome, (session.interpreter.step random).2) := Prod.ext stepped rfl
      have recorded : session.interpreter.stepRecords random =
          session.interpreter.machine.records := by
        rw [Interpreter.stepRecords, stepped, List.append_nil]
      obtain ⟨announced, records, followed⟩ := follow_cases
        { session with
          interpreter := (session.interpreter.step random).2
          cycles := session.cycles + 1
          events := (session.interpreter.machine.records.map Event.record).reverse ++
            session.events } outcome
      refine .inr ⟨rfl, outcome, announced,
        records ++ session.interpreter.machine.records.reverse, rfl, ?_⟩
      rw [recorded, answer]
      refine followed.trans ?_
      simp

/-- A session that plays a program before its first tick. -/
def begun (settings : Settings) (name : String) (program : List UInt8) (limit : Option Nat) :
    Session :=
  note ⟨((Interpreter.powerOn settings).load program).2, .idle, .ofSettings settings, limit, 0,
    false, [], none⟩ [.programLoaded program.length, .fileLoaded name program.length]

/-- A session starts exactly when the settings are accepted and the file holds a program for which
there is room. -/
theorem start_eq_ok_iff (settings : Settings) (name : String)
    (program : Except String (List UInt8)) (limit : Option Nat) (session : Session) :
    start settings name program limit = .ok session ↔
      settings.check = .ok () ∧ ∃ bytes, program = .ok bytes ∧ bytes.length ≤ 3584 ∧
        session = begun settings name bytes limit := by
  unfold start Interpreter.create
  cases settings.check with
  | error fault => simp [Except.map]
  | ok accepted =>
    cases program with
    | error reason => simp [Except.map]
    | ok bytes =>
      simp only [Except.map, true_and, Except.ok.injEq, exists_eq_left']
      have room : Memory.programLimit = 3584 := by decide
      by_cases large : Memory.programLimit < bytes.length
      · have refused : (Interpreter.powerOn settings).load bytes =
            (.error (.tooLarge bytes.length Memory.programLimit), .powerOn settings) := by
          rw [Interpreter.load, if_neg (by exact Bool.false_ne_true), if_pos large]
        simp only [refused, reduceCtorEq, false_iff, not_and]
        omega
      · have loaded : ((Interpreter.powerOn settings).load bytes).1 = .ok () := by
          rw [Interpreter.load, if_neg (by exact Bool.false_ne_true), if_neg large]
        have answer : (Interpreter.powerOn settings).load bytes =
            (.ok (), ((Interpreter.powerOn settings).load bytes).2) := Prod.ext loaded rfl
        rw [answer]
        have small : bytes.length ≤ 3584 := by omega
        simp only [small, true_and, Except.ok.injEq, begun]
        exact eq_comm

/-- What a cycle asks of the interpreter. -/
def cycleCommands (session : Session) (random : UInt8) : List Command :=
  if session.exhausted then [] else [.step random]

/-- What a number of cycles ask of the interpreter. -/
def burstCommands (random : Nat → UInt8) : Nat → Session → List Command
  | 0, _ => []
  | count + 1, session =>
    match session.ending with
    | some _ => []
    | none =>
      session.cycleCommands (random session.cycles) ++
        burstCommands random count (session.cycle (random session.cycles))

/-- The session with its next tick begun: the clock goes on, and the lines are taken in. -/
def opened (session : Session) (lines : List String) : Session :=
  { session with clock := session.clock.next.2 }.takeIn lines

/-- The session after the cycles of its next tick, or at its end. -/
def worked (session : Session) (lines : List String) (random : Nat → UInt8) : Session :=
  burst random session.clock.next.1.toNat (session.opened lines)

/-- What the start of a tick asks of the interpreter. -/
def keyCommands (session : Session) (lines : List String) : List Command :=
  (lines.foldl Keyboard.type session.keyboard).commands

/-- What a tick asks of the interpreter up to its timers. -/
def workedCommands (session : Session) (lines : List String) (random : Nat → UInt8) :
    List Command :=
  session.keyCommands lines ++
    burstCommands random session.clock.next.1.toNat (session.opened lines)

/-- What a tick asks of the interpreter. -/
def tickCommands (session : Session) (lines : List String) (random : Nat → UInt8) : List Command :=
  match session.ending with
  | some _ => []
  | none =>
    session.workedCommands lines random ++
      match (session.worked lines random).ending with
      | some _ => []
      | none => [.tick, .takeFrame]

/-- What a number of ticks ask of the interpreter. -/
def performed (lines : Nat → List String) (random : Nat → UInt8) (session : Session) :
    Nat → List Command
  | 0 => []
  | ticks + 1 =>
    performed lines random session ticks ++
      (run lines random ticks session).tickCommands (lines ticks) random

variable {session : Session}

/-- No cycle follows the end of a session. -/
theorem burst_of_ended {ending : Ending} (ended : session.ending = some ending)
    (random : Nat → UInt8) (count : Nat) : burst random count session = session := by
  cases count with
  | zero => rfl
  | succ count => simp only [burst, ended]

/-- Nothing is asked of the interpreter after the end of a session. -/
theorem burstCommands_of_ended {ending : Ending} (ended : session.ending = some ending)
    (random : Nat → UInt8) (count : Nat) : burstCommands random count session = [] := by
  cases count with
  | zero => rfl
  | succ count => simp only [burstCommands, ended]

/-- One cycle comes before the others. -/
theorem burst_succ (goesOn : session.ending = none) (random : Nat → UInt8) (count : Nat) :
    burst random (count + 1) session =
      burst random count (session.cycle (random session.cycles)) := by
  simp only [burst, goesOn]

/-- What the first cycle asks for comes before what the others do. -/
theorem burstCommands_succ (goesOn : session.ending = none) (random : Nat → UInt8) (count : Nat) :
    burstCommands random (count + 1) session =
      session.cycleCommands (random session.cycles) ++
        burstCommands random count (session.cycle (random session.cycles)) := by
  simp only [burstCommands, goesOn]

/-- What every cycle of an open session keeps, with what it asks of the interpreter, any number of
cycles keep. -/
theorem burst_invariant {motive : List Command → Session → Prop}
    (cycle : ∀ commands session random, session.ending = none → motive commands session →
      motive (commands ++ session.cycleCommands random) (session.cycle random))
    (random : Nat → UInt8) (count : Nat) (commands : List Command) (session : Session)
    (holds : motive commands session) :
    motive (commands ++ burstCommands random count session) (burst random count session) := by
  induction count generalizing commands session with
  | zero =>
    show motive (commands ++ []) session
    rw [List.append_nil]
    exact holds
  | succ count ih =>
    cases ending : session.ending with
    | some ending =>
      rw [burst_of_ended ‹_›, burstCommands_of_ended ‹_›, List.append_nil]
      exact holds
    | none =>
      rw [burst_succ ending, burstCommands_succ ending, ← List.append_assoc]
      exact ih _ _ (cycle _ _ _ ending holds)

/-- A tick stops after its cycles if the session has ended, and goes on to the timers and the frame
if it has not. -/
theorem tick_of_open (goesOn : session.ending = none) (lines : List String)
    (random : Nat → UInt8) :
    session.tick lines random =
      match (session.worked lines random).ending with
      | some _ => session.worked lines random
      | none => (session.worked lines random).countDown.refresh := by
  unfold tick
  split
  case h_1 ending ended =>
    rw [goesOn] at ended
    cases ended
  case h_2 => rfl

/-- What taking in lines leaves as it is. -/
theorem opened_same (session : Session) (lines : List String) :
    (session.opened lines).cycles = session.cycles ∧
      (session.opened lines).limit = session.limit ∧
      (session.opened lines).ending = session.ending ∧
      (session.opened lines).clock = session.clock.next.2 := by
  simp only [opened, takeIn, note_eq, and_self]

/-- What the timers and the frame leave as it is. -/
theorem refresh_countDown_same (session : Session) :
    session.countDown.refresh.cycles = session.cycles ∧
      session.countDown.refresh.limit = session.limit ∧
      session.countDown.refresh.ending = session.ending ∧
      session.countDown.refresh.clock = session.clock := by
  have counted : session.countDown.cycles = session.cycles ∧
      session.countDown.limit = session.limit ∧
      session.countDown.ending = session.ending ∧ session.countDown.clock = session.clock := by
    unfold countDown
    split <;> exact ⟨rfl, rfl, rfl, rfl⟩
  rw [← counted.1, ← counted.2.1, ← counted.2.2.1, ← counted.2.2.2]
  unfold refresh
  split <;> exact ⟨rfl, rfl, rfl, rfl⟩

/-- Neither the session nor its cycles have ended before a tick after which the session goes on. -/
theorem open_of_tick {lines : List String} {random : Nat → UInt8}
    (goesOn : (session.tick lines random).ending = none) :
    session.ending = none ∧ (session.worked lines random).ending = none := by
  cases before : session.ending with
  | some ending =>
    rw [tick_of_ended _ _ _ _ before, before] at goesOn
    cases goesOn
  | none =>
    rw [tick_of_open before] at goesOn
    cases after : (session.worked lines random).ending with
    | some ending =>
      simp only [after] at goesOn
      cases goesOn
    | none => exact ⟨rfl, rfl⟩

/-- The tick of a session that has gone on after it was not cut short. -/
theorem tick_of_done {lines : List String} {random : Nat → UInt8}
    (done : (session.tick lines random).ending = none) :
    session.tick lines random = (session.worked lines random).countDown.refresh := by
  obtain ⟨before, after⟩ := open_of_tick done
  rw [tick_of_open before]
  simp only [after]

/-- A tick that is not cut short goes on to the timers and the frame. -/
theorem tickCommands_of_done {lines : List String} {random : Nat → UInt8}
    (done : (session.tick lines random).ending = none) :
    session.tickCommands lines random =
      session.workedCommands lines random ++ [.tick, .takeFrame] := by
  obtain ⟨before, after⟩ := open_of_tick done
  simp only [tickCommands, before, after]

/-- The keys at the start of a tick make no steps and no ticks. -/
theorem heard_keyCommands (session : Session) (lines : List String) :
    stepResults (session.interpreter.transcript (session.keyCommands lines)) = [] ∧
      tickSounds (session.interpreter.transcript (session.keyCommands lines)) = [] :=
  Keyboard.heard_commands _ _

/-- Taking lines in does to the interpreter what the keys ask for. -/
theorem interpreter_opened (session : Session) (lines : List String) :
    (session.opened lines).interpreter =
      session.interpreter.applyAll (session.keyCommands lines) := by
  rw [keyCommands, Keyboard.applyAll_commands]
  simp only [opened, takeIn, note_eq]

/-- The keys at the start of a tick leave the machine as it is. -/
theorem machine_opened (session : Session) (lines : List String) :
    (session.opened lines).interpreter.machine = session.interpreter.machine := by
  simp only [opened, takeIn, note_eq]
  rfl

/-- A cycle does to the interpreter what it asks for. -/
theorem interpreter_cycle (session : Session) (random : UInt8) :
    (session.cycle random).interpreter =
      session.interpreter.applyAll (session.cycleCommands random) := by
  unfold cycleCommands
  obtain ⟨exhausted, same⟩ | ⟨allowed, fault, records, -, left, same⟩ |
    ⟨allowed, outcome, announced, records, -, same⟩ := session.cycle_cases random
  · rw [same, if_pos exhausted]
    rfl
  · rw [same, if_neg (by rw [allowed]; exact Bool.false_ne_true)]
    exact left.symm
  · rw [same, if_neg (by rw [allowed]; exact Bool.false_ne_true)]
    rfl

/-- A number of cycles do to the interpreter what they ask for. -/
theorem interpreter_burst (random : Nat → UInt8) (count : Nat) (session : Session) :
    (burst random count session).interpreter =
      session.interpreter.applyAll (burstCommands random count session) := by
  refine burst_invariant (motive := fun commands after =>
    after.interpreter = session.interpreter.applyAll commands) ?_ random count [] session rfl
  intro commands before random _ moved
  rw [interpreter_cycle, moved, Interpreter.applyAll_append]

/-- The cycles of a tick do to the interpreter what they and the keys ask for. -/
theorem interpreter_worked (session : Session) (lines : List String) (random : Nat → UInt8) :
    (session.worked lines random).interpreter =
      session.interpreter.applyAll (session.workedCommands lines random) := by
  rw [worked, workedCommands, interpreter_burst, interpreter_opened, Interpreter.applyAll_append]

/-- The timers count down as the interpreter is told. -/
theorem interpreter_countDown (session : Session) :
    session.countDown.interpreter = session.interpreter.tick.2 := by
  unfold countDown
  split <;> simp_all [emit]

/-- The frame is taken as the interpreter is told. -/
theorem interpreter_refresh (session : Session) :
    session.refresh.interpreter = session.interpreter.takeFrame.2 := by
  unfold refresh Interpreter.takeFrame
  cases session.interpreter.machine.redraw <;> rfl

/-- A tick does to the interpreter what it asks for. -/
theorem interpreter_tick (session : Session) (lines : List String) (random : Nat → UInt8) :
    (session.tick lines random).interpreter =
      session.interpreter.applyAll (session.tickCommands lines random) := by
  unfold tickCommands
  cases ending : session.ending with
  | some ending =>
    rw [tick_of_ended _ _ _ _ ‹_›]
    rfl
  | none =>
    rw [tick_of_open ending, Interpreter.applyAll_append, ← interpreter_worked]
    cases (session.worked lines random).ending with
    | some _ => rfl
    | none => exact (interpreter_refresh _).trans (by rw [interpreter_countDown]; rfl)

/-- Nothing happens to the interpreter of a session but what its ticks ask for. -/
theorem interpreter_run (lines : Nat → List String) (random : Nat → UInt8) (ticks : Nat)
    (session : Session) :
    (run lines random ticks session).interpreter =
      session.interpreter.applyAll (session.performed lines random ticks) := by
  induction ticks with
  | zero => rfl
  | succ ticks ih =>
    rw [run, performed, interpreter_tick, ih, Interpreter.applyAll_append]

/-- A session has a reachable interpreter if it starts with one. -/
theorem reachable_run (reachable : session.interpreter.Reachable) (lines : Nat → List String)
    (random : Nat → UInt8) (ticks : Nat) :
    (run lines random ticks session).interpreter.Reachable := by
  rw [interpreter_run]
  exact reachable.applyAll _

/-- A session before its first tick has the interpreter into which its program was loaded. -/
theorem interpreter_begun (settings : Settings) (name : String) (program : List UInt8)
    (limit : Option Nat) :
    (begun settings name program limit).interpreter =
      ((Interpreter.powerOn settings).load program).2 := by
  rw [begun, note_eq]

/-- That interpreter is reachable. -/
theorem reachable_begun {settings : Settings} (accepted : settings.check = .ok ()) (name : String)
    (program : List UInt8) (limit : Option Nat) :
    (begun settings name program limit).interpreter.Reachable := by
  rw [interpreter_begun]
  exact (Interpreter.reachable_powerOn accepted).afterLoad program

end Session

end Chip8
