import Chip8.Proofs.Redraw
import Chip8.Proofs.Session.Performed
import Chip8.Proofs.Waiting

/-!
# What the user hears and sees

The text that a session writes is a projection of its machine. A tick that is done adds a bell if it
is the one in which the sound timer runs out, and then the picture of the frame if an instruction
has written the frame in it, or if it is the first; a tick that is not done adds nothing. The note
that the frame has changed is what carries this from the steps to the end of the tick, so pictures
are neither lost nor repeated, and the last of them is always the frame of the machine.
-/

namespace Chip8

/-- The picture of a frame: the cursor goes to the top left, and a line follows for each row, with a
block for each pixel that is lit. -/
def picture (frame : Frame) : List Char :=
  ['\x1b', '[', 'H'] ++ (List.finRange 32).flatMap fun y =>
    ((List.finRange 64).map fun x => if frame.lit x y then '█' else ' ') ++ ['\n']

namespace Terminal

/-- What comes after something else is written after it. -/
theorem chars_append (earlier later : List Output) :
    chars (earlier ++ later) = chars earlier ++ chars later := List.flatMap_append

/-- A frame is written as its picture. -/
theorem chars_singleton_frame (shown : Frame) : chars [.frame shown] = picture shown := by
  rw [chars, List.flatMap_singleton]
  simp only [Output.chars, home, picture]
  rfl

/-- A number of bells are written as so many control characters. -/
theorem chars_bells (count : Nat) :
    chars (List.replicate count .bell) = List.replicate count '\x07' := by
  induction count with
  | zero => rfl
  | succ count ih =>
    rw [List.replicate_succ', chars_append, ih, List.replicate_succ']
    rfl

end Terminal

/-- Whether a step executed an instruction that writes the frame. -/
def drew : Except Fault Outcome → Bool
  | .ok (.executed instruction) => instruction.draws
  | _ => false

/-- What steps have made of a machine, as far as its frame goes: the frame is to be taken if it was
before or one of them wrote it, and it is as it was if none did. -/
structure Drawn (before after : Machine) (results : List (Except Fault Outcome)) : Prop where
  redraw : after.redraw = (before.redraw || results.any drew)
  frame : results.any drew = false → after.frame = before.frame

/-- No step is needed between machines that agree on the frame and its note. -/
theorem Drawn.of_same {before after : Machine} (redraw : after.redraw = before.redraw)
    (frame : after.frame = before.frame) : Drawn before after [] where
  redraw := redraw.trans (Bool.or_false _).symm
  frame := fun _ => frame

/-- Steps follow steps. -/
theorem Drawn.trans {first second third : Machine} {earlier later : List (Except Fault Outcome)}
    (one : Drawn first second earlier) (two : Drawn second third later) :
    Drawn first third (earlier ++ later) where
  redraw := by rw [two.redraw, one.redraw, List.any_append, Bool.or_assoc]
  frame := by
    intro none
    rw [List.any_append, Bool.or_eq_false_iff] at none
    rw [two.frame none.2, one.frame none.1]

namespace Interpreter

/-- An instruction that writes the frame does not wait for a key, so the step that performs it says
that it was executed; no other step writes the frame. -/
theorem Reachable.drawn_step {interpreter : Interpreter} (reachable : interpreter.Reachable)
    (random : UInt8) :
    Drawn interpreter.machine (interpreter.step random).2.machine
      [(interpreter.step random).1] := by
  obtain ⟨fault, -, same⟩ | ⟨instruction, next, found, performed, same⟩ :=
    interpreter.step_cases random
  · rw [same]
    exact ⟨(Bool.or_false _).symm, fun _ => rfl⟩
  · have redraw := Machine.redraw_of_perform performed
    cases draws : instruction.draws with
    | true =>
      have goesOn : ∀ x, instruction ≠ .awaitKey x := by
        rintro x rfl
        cases draws
      have told : drew (.ok (.executed instruction)) = true := draws
      rw [reachable.step_of_perform found goesOn performed]
      refine ⟨?_, ?_⟩
      · rw [List.any_cons, told, redraw, draws, Bool.true_or]
      · intro none
        rw [List.any_cons, told, Bool.true_or] at none
        cases none
    | false =>
      have silent : drew (interpreter.step random).1 = false := by
        rw [same]
        cases awaiting : next.awaiting with
        | none => exact draws
        | some x => rfl
      have after : (interpreter.step random).2.machine = next := by rw [same]
      rw [draws] at redraw
      refine ⟨?_, fun _ => ?_⟩
      · rw [List.any_cons, silent, after, redraw]
        rfl
      · rw [after]
        exact Machine.frame_of_perform performed draws

end Interpreter

namespace Session

/-- What a session has had heard and seen that the host has not been handed yet. -/
def shown (session : Session) : List Terminal.Output := outputs session.pending

/-- What became of the steps of the next tick. -/
def outcomes (session : Session) (lines : List String) (random : Nat → UInt8) :
    List (Except Fault Outcome) :=
  stepResults (session.interpreter.transcript (session.tickCommands lines random))

/-- What the next tick is to add to the text. Nothing, if it is not done; else a bell if the sound
timer goes from one to zero as the timers count down, and then the picture of the frame at its end
if it is the first tick or a step of it executed an instruction that writes the frame. -/
def beat (session : Session) (lines : List String) (random : Nat → UInt8) (first : Bool) :
    List Char :=
  let due := (session.worked lines random).interpreter.machine
  let done := (session.tick lines random).interpreter.machine
  if (session.tick lines random).ending = none then
    (if due.sound = 1 ∧ done.sound = 0 then ['\x07'] else []) ++
      (if first || (session.outcomes lines random).any drew then picture done.frame else [])
  else []

variable {session : Session}

/-- What is heard and seen of some events comes before what is heard and seen of later ones. -/
theorem outputs_append (earlier later : List Event) :
    outputs (earlier ++ later) = outputs earlier ++ outputs later := List.filterMap_append

/-- Records are neither heard nor seen. -/
theorem outputs_records (records : List Record) : outputs (records.map .record) = [] := by
  rw [outputs, List.filterMap_map]
  exact List.filterMap_eq_nil_iff.mpr fun _ _ => rfl

/-- Records alone add nothing to hear and see. -/
theorem shown_of_events {next : Session} {records : List Record}
    (events : next.events = records.map .record ++ session.events) :
    next.shown = session.shown := by
  rw [shown, pending, events, List.reverse_append, outputs_append, ← List.map_reverse,
    outputs_records, List.append_nil]
  rfl

/-- A cycle is neither heard nor seen. -/
theorem shown_cycle (session : Session) (random : UInt8) :
    (session.cycle random).shown = session.shown := by
  obtain ⟨-, same⟩ | ⟨-, fault, records, -, -, same⟩ | ⟨-, outcome, announced, records, -, same⟩ :=
    session.cycle_cases random
  · have events : (session.cycle random).events =
        [Record.stopped session.cycles].map .record ++ session.events := by rw [same]; rfl
    exact shown_of_events events
  · have events : (session.cycle random).events =
        (.faulted session.interpreter.machine.pc fault :: records).map .record ++
          session.events := by rw [same]; rfl
    exact shown_of_events events
  · have events : (session.cycle random).events = records.map .record ++ session.events := by
      rw [same]
    exact shown_of_events events

/-- Neither are any number of cycles. -/
theorem shown_burst (random : Nat → UInt8) (count : Nat) (session : Session) :
    (burst random count session).shown = session.shown := by
  refine burst_invariant (motive := fun _ after => after.shown = session.shown) ?_ random count []
    session rfl
  intro _ before random _ same
  rw [shown_cycle, same]

/-- Up to its timers, a tick is neither heard nor seen. -/
theorem shown_worked (session : Session) (lines : List String) (random : Nat → UInt8) :
    (session.worked lines random).shown = session.shown := by
  rw [worked, shown_burst, opened, takeIn]
  simp only [shown, pending, note_eq]
  rw [List.reverse_append, outputs_append, List.reverse_reverse, outputs_records, List.append_nil]

/-- The timers are heard when the sound timer runs out. -/
theorem shown_countDown (session : Session) :
    session.countDown.shown =
      session.shown ++ if session.interpreter.machine.sound = 1 then [.bell] else [] := by
  unfold countDown Interpreter.tick Machine.tick
  by_cases last : session.interpreter.machine.sound = 1
  · simp only [if_pos last, shown, pending_emit, outputs_append]
    rfl
  · simp only [if_neg last, List.append_nil]
    rfl

/-- The frame is seen when it is to be taken. -/
theorem shown_refresh (session : Session) :
    session.refresh.shown = session.shown ++
      if session.interpreter.machine.redraw then [.frame session.interpreter.machine.frame]
      else [] := by
  unfold refresh Interpreter.takeFrame
  cases session.interpreter.machine.redraw with
  | false => exact (List.append_nil _).symm
  | true =>
    simp only [if_true, shown, pending_emit, outputs_append]
    rfl

/-- A step is all that a cycle makes of the machine. -/
theorem drawn_cycle (reachable : session.interpreter.Reachable) (random : UInt8) :
    Drawn session.interpreter.machine (session.cycle random).interpreter.machine
      (stepResults (session.interpreter.transcript (session.cycleCommands random))) := by
  rw [interpreter_cycle, cycleCommands]
  split
  case isTrue => exact .of_same rfl rfl
  case isFalse => exact reachable.drawn_step random

/-- A number of cycles make of the machine what their steps do. -/
theorem drawn_burst (reachable : session.interpreter.Reachable) (random : Nat → UInt8)
    (count : Nat) :
    Drawn session.interpreter.machine (burst random count session).interpreter.machine
      (stepResults (session.interpreter.transcript (burstCommands random count session))) := by
  refine (burst_invariant (motive := fun commands after =>
    after.interpreter = session.interpreter.applyAll commands ∧
      Drawn session.interpreter.machine after.interpreter.machine
        (stepResults (session.interpreter.transcript commands)))
    ?_ random count [] session ⟨rfl, .of_same rfl rfl⟩).2
  intro commands before random _ held
  obtain ⟨moved, drawn⟩ := held
  have reached : before.interpreter.Reachable := by
    rw [moved]
    exact reachable.applyAll _
  constructor
  · rw [interpreter_cycle, moved, Interpreter.applyAll_append]
  · rw [Interpreter.transcript_append, stepResults_append, ← moved]
    exact drawn.trans (drawn_cycle reached random)

/-- Up to its timers, a tick makes of the machine what its steps do. -/
theorem drawn_worked (reachable : session.interpreter.Reachable) (lines : List String)
    (random : Nat → UInt8) :
    Drawn session.interpreter.machine (session.worked lines random).interpreter.machine
      (stepResults (session.interpreter.transcript (session.workedCommands lines random))) := by
  have moved := session.interpreter_opened lines
  have reached : (session.opened lines).interpreter.Reachable := by
    rw [moved]
    exact reachable.applyAll _
  have drawn := drawn_burst reached random session.clock.next.1.toNat
  rw [workedCommands, Interpreter.transcript_append, stepResults_append,
    (session.heard_keyCommands lines).1, List.nil_append, ← moved, ← machine_opened session lines]
  exact drawn

section Done

variable {lines : List String} {random : Nat → UInt8}
  (done : (session.tick lines random).ending = none)

include done

/-- The steps of a tick that is done are those before its timers. -/
theorem outcomes_of_done :
    session.outcomes lines random =
      stepResults (session.interpreter.transcript (session.workedCommands lines random)) := by
  rw [outcomes, tickCommands_of_done done, Interpreter.transcript_append, stepResults_append]
  exact List.append_nil _

/-- A tick that is done counts the timers down, and takes back that the frame has changed. -/
theorem machine_of_done :
    (session.tick lines random).interpreter.machine =
      { (session.worked lines random).interpreter.machine.tick.2 with redraw := false } := by
  rw [tick_of_done done, interpreter_refresh, interpreter_countDown, Interpreter.takeFrame_cases]
  rfl

/-- The frame at the end of a tick that is done is the one before its timers. -/
theorem frame_of_done :
    (session.tick lines random).interpreter.machine.frame =
      (session.worked lines random).interpreter.machine.frame := by
  rw [machine_of_done done]
  rfl

/-- The frame is to be taken before the timers if it was before the tick, or a step wrote it. -/
theorem redraw_worked_of_done (reachable : session.interpreter.Reachable) :
    (session.worked lines random).interpreter.machine.redraw =
      (session.interpreter.machine.redraw || (session.outcomes lines random).any drew) := by
  rw [outcomes_of_done done]
  exact (drawn_worked reachable lines random).redraw

/-- A tick that is done is heard if the sound timer runs out, and seen if there is a frame to take. -/
theorem shown_of_done :
    (session.tick lines random).shown = session.shown ++
      (if (session.worked lines random).interpreter.machine.sound = 1 then [.bell] else []) ++
      if (session.worked lines random).interpreter.machine.redraw then
        [.frame (session.tick lines random).interpreter.machine.frame]
      else [] := by
  have counted : (session.worked lines random).countDown.interpreter.machine =
      (session.worked lines random).interpreter.machine.tick.2 := by
    rw [interpreter_countDown]
    rfl
  rw [frame_of_done done, tick_of_done done, shown_refresh, shown_countDown, shown_worked, counted]
  rfl

/-- The sound timer goes from one to zero exactly when it is at one as the timers count down. -/
theorem sound_of_done :
    (session.worked lines random).interpreter.machine.sound = 1 ∧
        (session.tick lines random).interpreter.machine.sound = 0 ↔
      (session.worked lines random).interpreter.machine.sound = 1 := by
  have after : (session.tick lines random).interpreter.machine.sound =
      if (session.worked lines random).interpreter.machine.sound = 0 then 0
      else (session.worked lines random).interpreter.machine.sound - 1 := by
    rw [machine_of_done done]
    rfl
  constructor
  · exact And.left
  · intro last
    refine ⟨last, ?_⟩
    rw [after, last]
    rfl

end Done

/-- A tick that is not done is neither heard nor seen. -/
theorem shown_of_not_done {lines : List String} {random : Nat → UInt8}
    (ended : (session.tick lines random).ending ≠ none) :
    (session.tick lines random).shown = session.shown := by
  cases before : session.ending with
  | some ending => rw [tick_of_ended _ _ _ _ before]
  | none =>
    have same := tick_of_open before lines random
    cases after : (session.worked lines random).ending with
    | some ending =>
      simp only [after] at same
      rw [same, shown_worked]
    | none =>
      simp only [after] at same
      have goesOn := (session.worked lines random).refresh_countDown_same.2.2.1
      rw [same, goesOn] at ended
      exact absurd after ended

/-- A tick adds its beat to the text. -/
theorem chars_tick (reachable : session.interpreter.Reachable) (lines : List String)
    (random : Nat → UInt8) :
    Terminal.chars (session.tick lines random).shown =
      Terminal.chars session.shown ++
        session.beat lines random session.interpreter.machine.redraw := by
  unfold beat
  by_cases done : (session.tick lines random).ending = none
  · have bell : Terminal.chars
        (if (session.worked lines random).interpreter.machine.sound = 1 then [.bell] else []) =
        if (session.worked lines random).interpreter.machine.sound = 1 then ['\x07'] else [] := by
      split <;> rfl
    rw [if_pos done, shown_of_done done, Terminal.chars_append, Terminal.chars_append, bell,
      List.append_assoc, redraw_worked_of_done done reachable]
    simp only [sound_of_done done]
    congr 2
    split
    case isTrue => exact Terminal.chars_singleton_frame _
    case isFalse => rfl
  · rw [if_neg done, shown_of_not_done done, List.append_nil]

/-- A tick that is not done adds nothing, be it the first or not. -/
theorem beat_congr {lines : List String} {random : Nat → UInt8} {first other : Bool}
    (same : (session.tick lines random).ending = none → first = other) :
    session.beat lines random first = session.beat lines random other := by
  unfold beat
  by_cases done : (session.tick lines random).ending = none
  · rw [same done]
  · rw [if_neg done, if_neg done]

section Runs

variable {lines : Nat → List String} {random : Nat → UInt8} {ticks : Nat}
  (reachable : session.interpreter.Reachable) (yet : session.interpreter.machine.redraw = true)

include yet

/-- If the frame is to be taken at the start, it is to be taken between two ticks only then. -/
theorem redraw_run (goesOn : (run lines random ticks session).ending = none) :
    (run lines random ticks session).interpreter.machine.redraw = decide (ticks = 0) := by
  cases ticks with
  | zero => exact yet
  | succ ticks => exact congrArg Machine.redraw (machine_of_done goesOn)

include reachable

/-- A session that has shown nothing at the start has shown the beats of its ticks. -/
theorem chars_run (silent : session.shown = []) :
    Terminal.chars (run lines random ticks session).shown =
      (List.range ticks).flatMap fun count =>
        (run lines random count session).beat (lines count) random (count = 0) := by
  induction ticks with
  | zero =>
    show Terminal.chars session.shown = []
    rw [silent]
    rfl
  | succ ticks ih =>
    have reached := reachable_run reachable lines random ticks
    have beat : (run lines random ticks session).beat (lines ticks) random
          (run lines random ticks session).interpreter.machine.redraw =
        (run lines random ticks session).beat (lines ticks) random (ticks = 0) :=
      beat_congr fun done => redraw_run yet (open_of_tick done).1
    rw [run, chars_tick reached, ih, beat, List.range_succ, List.flatMap_append,
      List.flatMap_singleton]

/-- Nothing but bells has come after the picture of the frame. -/
theorem exists_shown_run (some : 0 < ticks)
    (goesOn : (run lines random ticks session).ending = none) :
    ∃ before bells, (run lines random ticks session).shown =
      before ++ [.frame (run lines random ticks session).interpreter.machine.frame] ++
        List.replicate bells .bell := by
  induction ticks with
  | zero => exact absurd some (Nat.lt_irrefl 0)
  | succ ticks ih =>
    have before := (open_of_tick goesOn).1
    have reached := reachable_run reachable lines random ticks
    have added := shown_of_done goesOn
    have drawn := drawn_worked reached (lines ticks) random
    rw [← outcomes_of_done goesOn] at drawn
    rw [run, added]
    cases redraw : ((run lines random ticks session).worked (lines ticks)
        random).interpreter.machine.redraw with
    | true => exact ⟨_, 0, (List.append_nil _).symm⟩
    | false =>
      -- This is not the first tick then, and the frame is still the one of the last picture.
      have settled := drawn.redraw
      rw [redraw, redraw_run yet before, eq_comm, Bool.or_eq_false_iff] at settled
      have later : 0 < ticks := Nat.pos_of_ne_zero (of_decide_eq_false settled.1)
      have same : ((run lines random ticks session).tick (lines ticks)
          random).interpreter.machine.frame =
          (run lines random ticks session).interpreter.machine.frame :=
        (frame_of_done goesOn).trans (drawn.frame settled.2)
      obtain ⟨earlier, bells, shown⟩ := ih later before
      rw [shown, same, if_neg Bool.false_ne_true, List.append_nil]
      split
      case isTrue =>
        refine ⟨earlier, bells + 1, ?_⟩
        rw [List.append_assoc, List.replicate_succ']
      case isFalse => exact ⟨earlier, bells, List.append_nil _⟩

end Runs

/-- A session before its first tick has a reachable interpreter, a frame that is to be taken, and
nothing shown. -/
theorem fresh_begun (settings : Settings) (accepted : settings.check = .ok ()) (name : String)
    (program : List UInt8) (fits : program.length ≤ 3584) (limit : Option Nat) :
    (begun settings name program limit).interpreter.Reachable ∧
      (begun settings name program limit).interpreter.machine.redraw = true ∧
      (begun settings name program limit).shown = [] := by
  refine ⟨reachable_begun accepted name program limit, ?_, ?_⟩
  · rw [interpreter_begun, Interpreter.load_powerOn settings program fits]
    rfl
  · rw [begun, shown, pending_note]
    rfl

/-- What a session writes is a projection of its machine. The text is the beats of its ticks, one
after the other and nothing else: a bell for the tick in which the sound timer runs out, then the
picture of the frame for the tick in which an instruction has written it and for the first, and
nothing for a tick that is not done. And when a tick is done, the text ends with the picture of the
frame as it is, and perhaps with bells. -/
theorem text_run {settings : Settings} {name : String} {program : Except String (List UInt8)}
    {limit : Option Nat} {session : Session}
    (started : start settings name program limit = .ok session) (lines : Nat → List String)
    (random : Nat → UInt8) (ticks : Nat) :
    Terminal.text (outputs (run lines random ticks session).pending) =
        String.ofList ((List.range ticks).flatMap fun count =>
          (run lines random count session).beat (lines count) random (count = 0)) ∧
      (0 < ticks → (run lines random ticks session).ending = none →
        ∃ before bells, Terminal.text (outputs (run lines random ticks session).pending) =
          String.ofList (before ++
            picture (run lines random ticks session).interpreter.machine.frame ++
            List.replicate bells '\x07')) := by
  obtain ⟨accepted, bytes, -, fits, rfl⟩ := (start_eq_ok_iff _ _ _ _ _).mp started
  obtain ⟨reachable, yet, silent⟩ := fresh_begun settings accepted name bytes fits limit
  constructor
  · exact congrArg String.ofList (chars_run reachable yet silent)
  · intro some goesOn
    obtain ⟨before, bells, shown⟩ := exists_shown_run reachable yet some goesOn
    refine ⟨Terminal.chars before, bells, congrArg String.ofList ?_⟩
    rw [← Session.shown, shown, Terminal.chars_append, Terminal.chars_append, Terminal.chars_bells,
      Terminal.chars_singleton_frame]

/-- A program that sets the sound timer to one, draws the glyph of zero, and does no more. -/
def chime : List UInt8 := [0x60, 0x01, 0xF0, 0x18, 0xA0, 0x50, 0xD0, 0x05, 0x12, 0x08]

/-- Four cycles in each tick. -/
def brisk : Settings := { cpuRate := 4, timerRate := 1 }

/-- At that pace the first tick of the program rings the bell and shows the glyph, and the second
adds nothing. -/
theorem text_run_chime :
    ∃ session, start brisk "chime" (.ok chime) none = .ok session ∧
      (run (fun _ => []) (fun _ => 0) 1 session).interpreter.machine.frame.lit 1 1 = true ∧
      Terminal.text (outputs (run (fun _ => []) (fun _ => 0) 2 session).pending) =
        String.ofList ('\x07' ::
          picture (run (fun _ => []) (fun _ => 0) 1 session).interpreter.machine.frame) := by
  have started : start brisk "chime" (.ok chime) none = .ok (begun brisk "chime" chime none) :=
    (start_eq_ok_iff _ _ _ _ _).mpr ⟨by decide, chime, rfl, by decide, rfl⟩
  have ticks : (run (fun _ => []) (fun _ => 0) 1
        (begun brisk "chime" chime none)).interpreter.machine.frame.lit 1 1 = true ∧
      (run (fun _ => []) (fun _ => 0) 0 (begun brisk "chime" chime none)).beat [] (fun _ => 0)
        (decide (0 = 0)) = '\x07' :: picture (run (fun _ => []) (fun _ => 0) 1
          (begun brisk "chime" chime none)).interpreter.machine.frame ∧
      (run (fun _ => []) (fun _ => 0) 1 (begun brisk "chime" chime none)).beat [] (fun _ => 0)
        (decide (1 = 0)) = [] := by
    decide +kernel
  obtain ⟨lit, first, second⟩ := ticks
  have two : List.range 2 = [0, 1] := rfl
  refine ⟨_, started, lit, ?_⟩
  rw [(text_run started (fun _ => []) (fun _ => 0) 2).1, two, List.flatMap_cons, List.flatMap_cons,
    first, second, List.flatMap_nil, List.append_nil, List.append_nil]

end Session

end Chip8
