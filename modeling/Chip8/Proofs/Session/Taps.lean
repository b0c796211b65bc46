import Chip8.Proofs.Session.Pacing
import Chip8.Proofs.Typing
import Chip8.Proofs.Waiting

/-!
# Taps while a program waits

A tap lasts for one tick, and a program that waits for a key takes it in a cycle. So a tap ends the
wait if a cycle is due in its tick, and the first one does it. In a tick for which no cycle is due,
which there is only where the timers are faster than the machine, nothing looks at the key before
the next update lets go of it: the tap is lost and the program goes on waiting.
-/

namespace Chip8

/-- Whether a command is of those that a session gives. -/
def Command.plays : Command → Bool
  | .load _ => false
  | .reset => false
  | .passOver => false
  | _ => true

namespace Interpreter

variable {interpreter : Interpreter} {x : Register}

/-- After a step that says that the program waits, it does. -/
theorem awaiting_step {random : UInt8}
    (answered : (interpreter.step random).1 = .ok (.awaiting x)) :
    (interpreter.step random).2.machine.awaiting = some x := by
  obtain ⟨fault, -, same⟩ | ⟨instruction, next, -, -, same⟩ := interpreter.step_cases random
  · rw [same] at answered
    cases answered
  · rw [same] at answered ⊢
    cases awaiting : next.awaiting with
    | none =>
      rw [awaiting] at answered
      cases answered
    | some y =>
      rw [awaiting] at answered
      cases answered
      rfl

/-- If the last step of a session's commands says that the program waits, it does after them all. -/
theorem awaiting_applyAll {commands : List Command}
    (plays : ∀ command ∈ commands, command.plays = true)
    (last : (stepResults (interpreter.transcript commands)).getLast? = some (.ok (.awaiting x))) :
    (interpreter.applyAll commands).machine.awaiting = some x := by
  induction commands using List.reverseRecOn with
  | nil => cases last
  | append_singleton before command ih =>
    have playsBefore := fun other member => plays other (List.mem_append_left _ member)
    have kept : stepResults (interpreter.transcript (before ++ [command])) =
          stepResults (interpreter.transcript before) →
        (interpreter.applyAll before).machine.awaiting = some x := by
      intro same
      rw [same] at last
      exact ih playsBefore last
    rw [applyAll_append]
    rw [transcript_append, stepResults_append] at kept
    cases command with
    | step random =>
      rw [stepResults_step, List.getLast?_concat] at last
      exact awaiting_step (Option.some.inj last)
    | tick => exact kept (List.append_nil _)
    | press key =>
      have waiting := kept (List.append_nil _)
      rw [← machine_setKey _ key true] at waiting
      exact waiting
    | release key =>
      have waiting := kept (List.append_nil _)
      rw [← machine_setKey _ key false] at waiting
      exact waiting
    | takeFrame =>
      have waiting := kept (List.append_nil _)
      show ((interpreter.applyAll before).takeFrame).2.machine.awaiting = some x
      rw [takeFrame_cases]
      exact waiting
    | load program => cases plays (.load program) List.mem_concat_self
    | reset => cases plays .reset List.mem_concat_self
    | passOver => cases plays .passOver List.mem_concat_self

/-- A step at which the program waits and a key is down takes the lowest one. -/
theorem Reachable.step_of_awaiting (reachable : interpreter.Reachable)
    (awaiting : interpreter.machine.awaiting = some x) {key : Key}
    (lowest : interpreter.keys.lowest? = some key) (random : UInt8) :
    interpreter.step random = (.ok (.executed (.awaitKey x)),
      { interpreter with machine :=
        { interpreter.machine.advance.setRegister x key.toByte with awaiting := none } }) :=
  step_of_down (reachable.attentive x awaiting) lowest random

end Interpreter

namespace Session

variable {session : Session}

/-- No line waits to be looked at, and no key is down that the last update did not put down. -/
structure Heeded (session : Session) : Prop where
  lines : session.keyboard.lines = []
  covers : session.keyboard.Covers session.interpreter.keys

/-- So it is before the first tick. -/
theorem heeded_begun (settings : Settings) (name : String) (program : List UInt8)
    (limit : Option Nat) : (begun settings name program limit).Heeded := by
  have up : (begun settings name program limit).interpreter.keys = .released := by
    have kept : ((Interpreter.powerOn settings).apply (.load program)).2.keys = _ :=
      Interpreter.keys_apply _ rfl
    rw [interpreter_begun]
    exact kept
  refine ⟨?_, ?_⟩
  · rw [begun, note_eq]
    rfl
  · intro key down
    rw [up, Keys.isDown_released] at down
    cases down

/-- The same keyboard and the same keys are heeded as well. -/
theorem Heeded.of_same (heeded : session.Heeded) {next : Session}
    (keyboard : next.keyboard = session.keyboard)
    (keys : next.interpreter.keys = session.interpreter.keys) : next.Heeded := by
  refine ⟨?_, ?_⟩
  · rw [keyboard]
    exact heeded.lines
  · rw [keyboard, keys]
    exact heeded.covers

/-- After the start of a tick the keys of its lines are down and no others. -/
theorem Heeded.isDown_opened (heeded : session.Heeded) (lines : List String) (key : Key) :
    (session.opened lines).interpreter.keys.isDown key = true ↔
      key ∈ lines.flatMap Keyboard.digits := by
  have covers : (lines.foldl Keyboard.type session.keyboard).Covers session.interpreter.keys := by
    rw [Keyboard.foldl_type]
    exact heeded.covers
  rw [interpreter_opened, keyCommands, Keyboard.applyAll_commands, covers.isDown_update,
    Keyboard.taps_eq, Keyboard.foldl_type, heeded.lines, List.nil_append]

/-- The start of a tick heeds its lines. -/
theorem Heeded.opened (heeded : session.Heeded) (lines : List String) :
    (session.opened lines).Heeded := by
  have keyboard : (session.opened lines).keyboard =
      ⟨[], (lines.foldl Keyboard.type session.keyboard).taps⟩ := by
    simp only [Session.opened, takeIn, note_eq]
    rfl
  refine ⟨?_, ?_⟩
  · rw [keyboard]
  · intro key down
    have typed := (heeded.isDown_opened lines key).mp down
    rw [keyboard, Keyboard.taps_eq, Keyboard.foldl_type, heeded.lines, List.nil_append]
    exact typed

/-- A cycle touches neither the keyboard nor the keys. -/
theorem Heeded.cycle (heeded : session.Heeded) (random : UInt8) :
    (session.cycle random).Heeded := by
  refine heeded.of_same ?_ ?_
  · obtain ⟨-, same⟩ | ⟨-, fault, records, -, -, same⟩ |
      ⟨-, outcome, announced, records, -, same⟩ := session.cycle_cases random
    all_goals rw [same]
  · rw [interpreter_cycle, cycleCommands]
    split
    case isTrue => rfl
    case isFalse =>
      have kept : (session.interpreter.apply (.step random)).2.keys = session.interpreter.keys :=
        session.interpreter.keys_apply rfl
      exact kept

/-- Neither does any number of cycles. -/
theorem Heeded.burst (heeded : session.Heeded) (random : Nat → UInt8) (count : Nat) :
    (burst random count session).Heeded :=
  burst_invariant (motive := fun _ session => session.Heeded)
    (fun _ _ random _ heeded => heeded.cycle random) random count [] session heeded

/-- Neither the timers nor the frame have to do with the keyboard. -/
theorem keyboard_refresh_countDown (session : Session) :
    session.countDown.refresh.keyboard = session.keyboard := by
  have counted : session.countDown.keyboard = session.keyboard := by
    unfold countDown
    split <;> rfl
  rw [← counted]
  unfold refresh
  split <;> rfl

/-- A tick leaves the lines heeded. -/
theorem Heeded.tick (heeded : session.Heeded) (lines : List String) (random : Nat → UInt8) :
    (session.tick lines random).Heeded := by
  cases ending : session.ending with
  | some ending =>
    rw [tick_of_ended _ _ _ _ ‹_›]
    exact heeded
  | none =>
    have worked : (session.worked lines random).Heeded := (heeded.opened lines).burst random _
    rw [tick_of_open ending]
    cases (session.worked lines random).ending with
    | some ending => exact worked
    | none =>
      show (session.worked lines random).countDown.refresh.Heeded
      refine worked.of_same (keyboard_refresh_countDown _) ?_
      rw [interpreter_refresh, Interpreter.takeFrame_cases, interpreter_countDown]
      rfl

/-- So does any number of ticks. -/
theorem Heeded.run (heeded : session.Heeded) (lines : Nat → List String) (random : Nat → UInt8)
    (ticks : Nat) : (run lines random ticks session).Heeded := by
  induction ticks with
  | zero => exact heeded
  | succ ticks ih => exact ih.tick (lines ticks) random

/-- The cycles of a tick ask for steps alone. -/
theorem exists_step_of_mem_burstCommands {random : Nat → UInt8} {count : Nat} {command : Command}
    (member : command ∈ burstCommands random count session) : ∃ byte, command = .step byte := by
  have all := burst_invariant (motive := fun commands _ =>
    ∀ command ∈ commands, ∃ byte, command = .step byte) ?_ random count [] session ?_
  · exact all command member
  · intro commands before byte _ steps command member
    obtain earlier | last := List.mem_append.mp member
    · exact steps command earlier
    · rw [cycleCommands] at last
      split at last
      case isTrue => cases last
      case isFalse => exact ⟨byte, List.mem_singleton.mp last⟩
  · intro command member
    cases member

/-- What follows the cycles of a tick counts the timers down and takes the frame, or is nothing. -/
theorem exists_tickCommands_eq (goesOn : session.ending = none) (lines : List String)
    (random : Nat → UInt8) :
    ∃ last, session.tickCommands lines random = session.workedCommands lines random ++ last ∧
      (last = [.tick, .takeFrame] ∨ last = []) := by
  simp only [tickCommands, goesOn]
  cases (session.worked lines random).ending with
  | some ending => exact ⟨[], rfl, .inr rfl⟩
  | none => exact ⟨[.tick, .takeFrame], rfl, .inl rfl⟩

/-- A tick gives no other commands than those that a session does. -/
theorem plays_tickCommands (lines : List String) (random : Nat → UInt8) :
    ∀ command ∈ session.tickCommands lines random, command.plays = true := by
  intro command member
  cases ended : session.ending with
  | some ending =>
    simp only [tickCommands, ended] at member
    cases member
  | none =>
    obtain ⟨last, whole, afterwards⟩ := exists_tickCommands_eq ended lines random
    rw [whole, workedCommands, List.mem_append, List.mem_append, keyCommands, Keyboard.commands,
      List.mem_append] at member
    obtain ((up | down) | cycle) | ends := member
    · obtain ⟨key, -, rfl⟩ := List.mem_map.mp up
      rfl
    · obtain ⟨key, -, rfl⟩ := List.mem_map.mp down
      rfl
    · obtain ⟨byte, rfl⟩ := exists_step_of_mem_burstCommands cycle
      rfl
    · have given : ∀ command ∈ [Command.tick, .takeFrame], command.plays = true := by decide
      obtain rfl | rfl := afterwards
      · exact given command ends
      · cases ends

/-- Neither does any number of ticks. -/
theorem plays_performed (lines : Nat → List String) (random : Nat → UInt8) (ticks : Nat) :
    ∀ command ∈ session.performed lines random ticks, command.plays = true := by
  induction ticks with
  | zero =>
    intro command member
    cases member
  | succ ticks ih =>
    intro command member
    obtain earlier | later := List.mem_append.mp member
    · exact ih command earlier
    · exact plays_tickCommands (lines ticks) random command later

/-- A cycle below the limit is allowed. -/
theorem not_exhausted (allowed : ∀ most, session.limit = some most → session.cycles < most) :
    session.exhausted = false := by
  unfold exhausted
  cases given : session.limit with
  | none => rfl
  | some most =>
    have below := allowed most given
    simpa using below

/-- The next tick of a session takes a key into a register. The first thing that it does once its
lines are taken in is a step, which puts the lowest of the keys typed there and goes on, and it lets
go of no key. -/
structure TakesKey (session : Session) (lines : List String) (random : Nat → UInt8) (x : Register)
    (key : Key) : Prop where
  lowest : IsLeast {key | key ∈ lines.flatMap Keyboard.digits} key
  first : ∃ rest, session.tickCommands lines random =
      session.keyCommands lines ++ .step (random session.cycles) :: rest ∧
    ∀ command ∈ rest, command.setsKey = false
  step : (session.interpreter.applyAll (session.keyCommands lines)).step (random session.cycles) =
    (.ok (.executed (.awaitKey x)), { session.interpreter.applyAll (session.keyCommands lines) with
      machine := { session.interpreter.machine.advance.setRegister x key.toByte with
        awaiting := none } })

/-- A session that waits, and whose next tick has a cycle and a tap, takes the key. -/
theorem exists_takesKey {lines : List String} {random : Nat → UInt8} {x : Register}
    (reachable : session.interpreter.Reachable) (heeded : session.Heeded)
    (goesOn : session.ending = none) (allowed : session.exhausted = false)
    (awaiting : session.interpreter.machine.awaiting = some x)
    (due : session.clock.next.1.toNat ≠ 0) (tapped : lines.flatMap Keyboard.digits ≠ []) :
    ∃ key, session.TakesKey lines random x key := by
  have moved := session.interpreter_opened lines
  have machine := session.machine_opened lines
  have reached : (session.opened lines).interpreter.Reachable := by
    rw [moved]
    exact reachable.applyAll _
  obtain ⟨typed, member⟩ := List.exists_mem_of_ne_nil _ tapped
  obtain ⟨key, lowest, down, least⟩ :=
    Keys.exists_lowest? _ ((heeded.isDown_opened lines typed).mpr member)
  refine ⟨key, ⟨(heeded.isDown_opened lines key).mp down, ?_⟩, ?_, ?_⟩
  · intro other member
    exact least other ((heeded.isDown_opened lines other).mpr member)
  · obtain ⟨cycles, limit, ending, -⟩ := session.opened_same lines
    obtain ⟨last, whole, afterwards⟩ := exists_tickCommands_eq goesOn lines random
    obtain ⟨count, counted⟩ := Nat.exists_eq_succ_of_ne_zero due
    have step : (session.opened lines).cycleCommands (random (session.opened lines).cycles) =
        [.step (random session.cycles)] := by
      have same : (session.opened lines).exhausted = session.exhausted := by
        rw [exhausted, exhausted, cycles, limit]
      rw [cycleCommands, same, allowed, cycles, if_neg Bool.false_ne_true]
    refine ⟨burstCommands random count
      ((session.opened lines).cycle (random (session.opened lines).cycles)) ++ last, ?_, ?_⟩
    · rw [whole, workedCommands, counted, burstCommands_succ (ending.trans goesOn), step]
      simp only [List.append_assoc, List.cons_append, List.nil_append]
    · intro command member
      obtain cycle | ends := List.mem_append.mp member
      · obtain ⟨byte, rfl⟩ := exists_step_of_mem_burstCommands cycle
        rfl
      · have quiet : ∀ command ∈ [Command.tick, .takeFrame], command.setsKey = false := by decide
        obtain rfl | rfl := afterwards
        · exact quiet command ends
        · cases ends
  · have waits : (session.opened lines).interpreter.machine.awaiting = some x := by
      rw [machine]
      exact awaiting
    have taken := reached.step_of_awaiting waits lowest (random session.cycles)
    rw [machine, moved] at taken
    exact taken

/-- A tick without cycles makes no step. -/
theorem stepResults_tickCommands (goesOn : session.ending = none) (lines : List String)
    (random : Nat → UInt8) (idle : session.clock.next.1.toNat = 0) :
    stepResults (session.interpreter.transcript (session.tickCommands lines random)) = [] := by
  obtain ⟨last, whole, afterwards⟩ := exists_tickCommands_eq goesOn lines random
  have keys := (session.heard_keyCommands lines).1
  have worked : session.workedCommands lines random = session.keyCommands lines := by
    rw [workedCommands, idle]
    exact List.append_nil _
  rw [whole, worked, Interpreter.transcript_append, stepResults_append, keys, List.nil_append]
  obtain rfl | rfl := afterwards
  · rfl
  · rfl

/-- A session whose last step waits goes on, unless no more cycles are allowed. -/
theorem open_of_waits {lines : Nat → List String} {random : Nat → UInt8}
    {ticks : Nat} {x : Register}
    (accounted : session.Accounted session.interpreter [])
    (waits : (session.steps lines random ticks).getLast? = some (.ok (.awaiting x)))
    (allowed : ∀ most, session.limit = some most →
      (session.steps lines random ticks).length < most) :
    (run lines random ticks session).ending = none ∧
      (run lines random ticks session).exhausted = false := by
  have whole := accounted.run lines random ticks
  have made : (run lines random ticks session).cycles =
      (session.steps lines random ticks).length := whole.cycles
  have limit := limit_run lines random ticks session
  constructor
  · cases whole.verdict with
    | goesOn ending flawless => exact ending
    | limited ending reached flawless =>
      have below := allowed _ (limit.symm.trans reached)
      omega
    | faulted before byte fault ending last flawless failed noted =>
      rw [steps_of_faulted last failed, List.getLast?_concat] at waits
      cases waits
  · apply not_exhausted
    intro most given
    rw [made]
    exact allowed most (limit.symm.trans given)

/-- The next tick of a session that goes on has the cycles that it is due. -/
theorem due_next_of_open {settings : Settings} {lines : Nat → List String} {random : Nat → UInt8}
    {ticks : Nat} (paced : session.Paced settings 0)
    (goesOn : (run lines random ticks session).ending = none) :
    settings.due ticks + (run lines random ticks session).clock.next.1.toNat =
      settings.due (ticks + 1) := by
  have pace := paced.run lines random ticks
  rw [countdowns_of_open goesOn] at pace
  cases pace with
  | between ending clock cycles => exact clock.due_next
  | among ended ran => exact absurd goesOn ended

/-- A tap ends a wait if a cycle is due in its tick, as one is in every tick unless the timers are
faster than the machine. Given that the last step waits for a key, that another cycle is allowed and
that the lines of the next tick tap a key, the session goes on, and the first cycle of this tick
puts the lowest key tapped into the register before any key is let go of. Where no cycle is due the
taps are lost: the tick makes no step, the program waits as before, and the keys that are down in
the next tick are those of its own lines. -/
theorem tap_ends_wait {settings : Settings} {name : String} {program : Except String (List UInt8)}
    {limit : Option Nat} {session : Session}
    (started : start settings name program limit = .ok session) (lines : Nat → List String)
    (random : Nat → UInt8) {ticks : Nat} {x : Register}
    (waits : (session.steps lines random ticks).getLast? = some (.ok (.awaiting x)))
    (allowed : ∀ most, limit = some most → (session.steps lines random ticks).length < most)
    (tapped : (lines ticks).flatMap Keyboard.digits ≠ []) :
    (run lines random ticks session).ending = none ∧
    (settings.timerRate ≤ settings.cpuRate → settings.due ticks < settings.due (ticks + 1)) ∧
    (settings.due ticks < settings.due (ticks + 1) →
      ∃ key, (run lines random ticks session).TakesKey (lines ticks) random x key) ∧
    (settings.due ticks = settings.due (ticks + 1) →
      session.steps lines random (ticks + 1) = session.steps lines random ticks ∧
      (run lines random (ticks + 1) session).interpreter.machine.awaiting = some x ∧
      ∀ key, ((run lines random (ticks + 1) session).opened
          (lines (ticks + 1))).interpreter.keys.isDown key = true ↔
        key ∈ (lines (ticks + 1)).flatMap Keyboard.digits) := by
  obtain ⟨accepted, bytes, -, -, rfl⟩ := (start_eq_ok_iff _ _ _ _ _).mp started
  have accounted := accounted_begun settings name bytes limit
  have paced := paced_begun settings name bytes limit
  have heeded := heeded_begun settings name bytes limit
  have reachable := reachable_begun accepted name bytes limit
  have given : (begun settings name bytes limit).limit = limit := by
    rw [begun, note_eq]
  obtain ⟨goesOn, below⟩ := open_of_waits accounted waits fun most same =>
    allowed most (given.symm.trans same)
  have waiting (count : Nat)
      (last : ((begun settings name bytes limit).steps lines random count).getLast? =
        some (.ok (.awaiting x))) :
      (run lines random count (begun settings name bytes limit)).interpreter.machine.awaiting =
        some x := by
    rw [interpreter_run]
    exact Interpreter.awaiting_applyAll (plays_performed lines random count) last
  have next := due_next_of_open paced goesOn
  refine ⟨goesOn, ?_, ?_, ?_⟩
  · intro fast
    apply settings.due_lt_succ
    rw [settings.tickRate_of_accepted accepted]
    exact UInt32.le_iff_toNat_le.mp fast
  · intro later
    have busy :
        (run lines random ticks (begun settings name bytes limit)).clock.next.1.toNat ≠ 0 := by
      omega
    exact exists_takesKey (reachable_run reachable lines random ticks)
      (heeded.run lines random ticks) goesOn below (waiting ticks waits) busy tapped
  · intro same
    have idle :
        (run lines random ticks (begun settings name bytes limit)).clock.next.1.toNat = 0 := by
      omega
    have steps : (begun settings name bytes limit).steps lines random (ticks + 1) =
        (begun settings name bytes limit).steps lines random ticks := by
      rw [steps_succ, stepResults_tickCommands goesOn _ _ idle, List.append_nil]
    refine ⟨steps, ?_, ?_⟩
    · apply waiting (ticks + 1)
      rw [steps]
      exact waits
    · exact (heeded.run lines random (ticks + 1)).isDown_opened (lines (ticks + 1))

/-- A cycle in every other tick. -/
def halved : Settings := { cpuRate := 30, timerRate := 60 }

/-- A tap in the third tick and two in the fourth. -/
def taps (tick : Nat) : List String :=
  if tick = 2 then ["5"] else if tick = 3 then ["b2"] else []

/-- At that pace a program that waits from the second tick on loses the tap in the third and takes
the lower one of the fourth. -/
theorem tap_ends_wait_halved :
    ∃ session, start halved "wait" (.ok [0xF0, 0x0A]) none = .ok session ∧
      session.steps taps (fun _ => 0) 3 = session.steps taps (fun _ => 0) 2 ∧
      (run taps (fun _ => 0) 3 session).TakesKey (taps 3) (fun _ => 0) 0 2 := by
  have accepted : halved.check = .ok () := by decide
  have started : start halved "wait" (.ok [0xF0, 0x0A]) none =
      .ok (begun halved "wait" [0xF0, 0x0A] none) :=
    (start_eq_ok_iff _ _ _ _ _).mpr ⟨accepted, _, rfl, by decide, rfl⟩
  have waits : (begun halved "wait" [0xF0, 0x0A] none).steps taps (fun _ => 0) 2 =
      [.ok (.awaiting 0)] := by
    decide +kernel
  have unlimited (count : Nat) : ∀ most, none = some most →
      ((begun halved "wait" [0xF0, 0x0A] none).steps taps (fun _ => 0) count).length < most := by
    intro most given
    cases given
  obtain ⟨-, -, -, lost⟩ := tap_ends_wait started taps (fun _ => 0) (by rw [waits]; rfl)
    (unlimited 2) (by decide)
  obtain ⟨same, -⟩ := lost (by decide)
  obtain ⟨-, -, taken, -⟩ := tap_ends_wait started taps (fun _ => 0) (by rw [same, waits]; rfl)
    (unlimited 3) (by decide)
  obtain ⟨key, takes⟩ := taken (by decide)
  have two : (2 : Key) ∈ (taps 3).flatMap Keyboard.digits := by decide
  have only : ∀ key : Key, key ∈ (taps 3).flatMap Keyboard.digits → key ≤ 2 → key = 2 := by decide
  obtain rfl := only key takes.lowest.1 (takes.lowest.2 two)
  exact ⟨_, started, same, takes⟩

/-- A single tap in the third tick. -/
def once (tick : Nat) : List String := if tick = 2 then ["5"] else []

/-- The program that waits when it comes is never told of it. -/
theorem tap_lost_halved :
    ∃ session, start halved "wait" (.ok [0xF0, 0x0A]) none = .ok session ∧
      session.steps once (fun _ => 0) 2 = [.ok (.awaiting 0)] ∧
      (once 2).flatMap Keyboard.digits = [5] ∧
      session.steps once (fun _ => 0) 6 =
        [.ok (.awaiting 0), .ok (.awaiting 0), .ok (.awaiting 0)] := by
  have accepted : halved.check = .ok () := by decide
  have started : start halved "wait" (.ok [0xF0, 0x0A]) none =
      .ok (begun halved "wait" [0xF0, 0x0A] none) :=
    (start_eq_ok_iff _ _ _ _ _).mpr ⟨accepted, _, rfl, by decide, rfl⟩
  exact ⟨_, started, by decide +kernel⟩

end Session

end Chip8
