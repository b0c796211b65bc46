import Chip8.Proofs.Session.Performed

/-!
# The account of a session

What a session has done is counted here from what passed between it and its interpreter. It has made
as many steps as its own counter says, and no more than it is allowed. While it goes on no step has
faulted; it ends with the step that does, or with all the steps made that are allowed. An account of
this is kept by every cycle, and so by every tick and every run.
-/

namespace Chip8

/-- No step has faulted. -/
def Flawless (results : List (Except Fault Outcome)) : Prop :=
  ∀ result ∈ results, ∃ outcome, result = .ok outcome

/-- A step that succeeds goes with others that did. -/
theorem Flawless.snoc {results : List (Except Fault Outcome)} (flawless : Flawless results)
    (outcome : Outcome) : Flawless (results ++ [.ok outcome]) := by
  intro result member
  obtain earlier | last := List.mem_append.mp member
  · exact flawless result earlier
  · exact ⟨outcome, List.mem_singleton.mp last⟩

/-- No result of a step that has not faulted is a fault. -/
theorem Flawless.getElem?_ne {results : List (Except Fault Outcome)} (flawless : Flawless results)
    (index : Nat) (fault : Fault) : results[index]? ≠ some (.error fault) := by
  intro failed
  obtain ⟨outcome, executed⟩ := flawless _ (List.mem_of_getElem? failed)
  cases executed

/-- If only the last of some steps has faulted, a fault is its fault. -/
theorem Flawless.eq_of_getElem?_concat {results : List (Except Fault Outcome)}
    (flawless : Flawless results) {last fault : Fault} {index : Nat}
    (failed : (results ++ [.error last])[index]? = some (.error fault)) :
    results.length = index ∧ last = fault := by
  by_cases earlier : index < results.length
  · rw [List.getElem?_append_left earlier] at failed
    exact absurd failed (flawless.getElem?_ne index fault)
  · rw [List.getElem?_append_right (by omega)] at failed
    have here : index - results.length = 0 := by
      have inside := (List.getElem?_eq_some_iff.mp failed).1
      rw [List.length_singleton] at inside
      omega
    rw [here] at failed
    cases failed
    exact ⟨by omega, rfl⟩

/-- One more step adds its result. -/
theorem Interpreter.stepResults_step (start : Interpreter) (commands : List Command)
    (random : UInt8) :
    stepResults (start.transcript (commands ++ [.step random])) =
      stepResults (start.transcript commands) ++ [((start.applyAll commands).step random).1] := by
  rw [transcript_append, stepResults_append]
  rfl

namespace Session

/-- What has passed between a session and its interpreter in a number of ticks. -/
def heard (session : Session) (lines : Nat → List String) (random : Nat → UInt8) (ticks : Nat) :
    List Exchange :=
  session.interpreter.transcript (session.performed lines random ticks)

variable {session : Session} {start : Interpreter} {commands : List Command}

/-- A limit that does not stop the next cycle is still ahead. -/
theorem lt_limit_of_not_exhausted (allowed : session.exhausted = false) {limit : Nat}
    (given : session.limit = some limit) : session.cycles < limit := by
  rw [exhausted, given] at allowed
  simpa using allowed

/-- A limit that stops the next cycle is reached. -/
theorem exists_limit_of_exhausted (exhausted : session.exhausted = true) :
    ∃ limit, session.limit = some limit ∧ limit ≤ session.cycles := by
  unfold Session.exhausted at exhausted
  cases given : session.limit with
  | none =>
    rw [given] at exhausted
    cases exhausted
  | some limit =>
    rw [given] at exhausted
    exact ⟨limit, rfl, of_decide_eq_true exhausted⟩

/-- How a session stands once its interpreter, which was `start`, has been given `commands`. -/
inductive Verdict (session : Session) (start : Interpreter) (commands : List Command) : Prop
  /-- It goes on, and no step has faulted. -/
  | goesOn (ending : session.ending = none)
    (flawless : Flawless (stepResults (start.transcript commands)))
  /-- It has begun all the cycles that are allowed, and no step has faulted. -/
  | limited (ending : session.ending = some .limit) (reached : session.limit = some session.cycles)
    (flawless : Flawless (stepResults (start.transcript commands)))
  /-- The last thing that it did was a step, which was the first to fault, and it said so. -/
  | faulted (before : List Command) (random : UInt8) (fault : Fault)
    (ending : session.ending = some (.fault fault)) (last : commands = before ++ [.step random])
    (flawless : Flawless (stepResults (start.transcript before)))
    (failed : ((start.applyAll before).step random).1 = .error fault)
    (noted : ∃ pc, session.events.head? = some (.record (.faulted pc fault)))

/-- A session has counted its steps, within what is allowed, and stands as they went. -/
structure Accounted (session : Session) (start : Interpreter) (commands : List Command) :
    Prop where
  interpreter : session.interpreter = start.applyAll commands
  cycles : session.cycles = (stepResults (start.transcript commands)).length
  within : ∀ limit, session.limit = some limit → session.cycles ≤ limit
  verdict : session.Verdict start commands

/-- As long as a session goes on, no step has faulted. -/
theorem Accounted.flawless (accounted : session.Accounted start commands)
    (goesOn : session.ending = none) : Flawless (stepResults (start.transcript commands)) := by
  cases accounted.verdict with
  | goesOn ending flawless => exact flawless
  | limited ending reached flawless => exact flawless
  | faulted before random fault ending last flawless failed noted =>
    rw [goesOn] at ending
    cases ending

/-- Commands that make no step leave the account as it is. -/
theorem Accounted.quiet (accounted : session.Accounted start commands)
    (goesOn : session.ending = none) {more : List Command} {next : Session}
    (interpreter : next.interpreter = session.interpreter.applyAll more)
    (quiet : stepResults (session.interpreter.transcript more) = [])
    (cycles : next.cycles = session.cycles) (limit : next.limit = session.limit)
    (ending : next.ending = session.ending) : next.Accounted start (commands ++ more) := by
  have results : stepResults (start.transcript (commands ++ more)) =
      stepResults (start.transcript commands) := by
    rw [Interpreter.transcript_append, stepResults_append, ← accounted.interpreter, quiet,
      List.append_nil]
  refine ⟨?_, ?_, ?_, .goesOn (ending.trans goesOn) ?_⟩
  · rw [interpreter, accounted.interpreter, Interpreter.applyAll_append]
  · rw [cycles, results, accounted.cycles]
  · rw [cycles, limit]
    exact accounted.within
  · rw [results]
    exact accounted.flawless goesOn

/-- A cycle is accounted for. -/
theorem Accounted.cycle (accounted : session.Accounted start commands)
    (goesOn : session.ending = none) (random : UInt8) :
    (session.cycle random).Accounted start (commands ++ session.cycleCommands random) := by
  have flawless := accounted.flawless goesOn
  have moved : (session.cycle random).interpreter =
      start.applyAll (commands ++ session.cycleCommands random) := by
    rw [interpreter_cycle, accounted.interpreter, Interpreter.applyAll_append]
  obtain ⟨exhausted, same⟩ | ⟨allowed, fault, records, failed, -, same⟩ |
    ⟨allowed, outcome, announced, records, executed, same⟩ := session.cycle_cases random
  · obtain ⟨limit, given, reached⟩ := exists_limit_of_exhausted exhausted
    have exact : session.limit = some session.cycles := by
      rw [given, Nat.le_antisymm (accounted.within limit given) reached]
    have nothing : session.cycleCommands random = [] := by
      rw [cycleCommands, if_pos exhausted]
    refine ⟨moved, ?_, ?_, ?_⟩
    · rw [same, nothing, List.append_nil]
      exact accounted.cycles
    · rw [same]
      exact accounted.within
    · rw [same, nothing, List.append_nil]
      exact .limited rfl exact flawless
  · have one : session.cycleCommands random = [.step random] := by
      rw [cycleCommands, allowed, if_neg Bool.false_ne_true]
    rw [accounted.interpreter] at failed
    refine ⟨moved, ?_, ?_, ?_⟩
    · rw [same, one, Interpreter.stepResults_step, List.length_append, ← accounted.cycles]
      rfl
    · rw [same]
      exact fun limit given => lt_limit_of_not_exhausted allowed given
    · rw [same, one]
      exact .faulted commands random fault rfl rfl flawless failed ⟨_, rfl⟩
  · have one : session.cycleCommands random = [.step random] := by
      rw [cycleCommands, allowed, if_neg Bool.false_ne_true]
    rw [accounted.interpreter] at executed
    refine ⟨moved, ?_, ?_, ?_⟩
    · rw [same, one, Interpreter.stepResults_step, List.length_append, ← accounted.cycles]
      rfl
    · rw [same]
      exact fun limit given => lt_limit_of_not_exhausted allowed given
    · rw [same, one]
      refine .goesOn goesOn ?_
      rw [Interpreter.stepResults_step, executed]
      exact flawless.snoc outcome

/-- So is any number of cycles. -/
theorem Accounted.burst (accounted : session.Accounted start commands) (random : Nat → UInt8)
    (count : Nat) :
    (burst random count session).Accounted start
      (commands ++ burstCommands random count session) :=
  burst_invariant (motive := fun commands session => session.Accounted start commands)
    (fun _ _ random goesOn accounted => accounted.cycle goesOn random) random count commands session
    accounted

/-- The cycles of a tick are accounted for. -/
theorem Accounted.worked (accounted : session.Accounted start commands)
    (goesOn : session.ending = none) (lines : List String) (random : Nat → UInt8) :
    (session.worked lines random).Accounted start
      (commands ++ session.workedCommands lines random) := by
  obtain ⟨cycles, limit, ending, -⟩ := session.opened_same lines
  have quiet := (session.heard_keyCommands lines).1
  have opened := accounted.quiet goesOn (session.interpreter_opened lines) quiet cycles limit ending
  rw [workedCommands, ← List.append_assoc]
  exact opened.burst random _

/-- A tick is accounted for. -/
theorem Accounted.tick (accounted : session.Accounted start commands) (lines : List String)
    (random : Nat → UInt8) :
    (session.tick lines random).Accounted start
      (commands ++ session.tickCommands lines random) := by
  unfold tickCommands
  cases ending : session.ending with
  | some ending =>
    rw [tick_of_ended _ _ _ _ ‹_›]
    show session.Accounted start (commands ++ [])
    rw [List.append_nil]
    exact accounted
  | none =>
    have worked := accounted.worked ending lines random
    rw [tick_of_open ending]
    cases after : (session.worked lines random).ending with
    | some _ =>
      show (session.worked lines random).Accounted start (commands ++ (_ ++ []))
      rw [List.append_nil]
      exact worked
    | none =>
      obtain ⟨cycles, limit, same, -⟩ := (session.worked lines random).refresh_countDown_same
      have moved : (session.worked lines random).countDown.refresh.interpreter =
          (session.worked lines random).interpreter.applyAll [.tick, .takeFrame] := by
        rw [interpreter_refresh, interpreter_countDown]
        rfl
      show (session.worked lines random).countDown.refresh.Accounted start
        (commands ++ (_ ++ [.tick, .takeFrame]))
      rw [← List.append_assoc]
      exact worked.quiet after moved rfl cycles limit same

/-- A session is accounted for after any number of ticks. -/
theorem Accounted.run (accounted : session.Accounted start []) (lines : Nat → List String)
    (random : Nat → UInt8) (ticks : Nat) :
    (run lines random ticks session).Accounted start (session.performed lines random ticks) := by
  induction ticks with
  | zero => exact accounted
  | succ ticks ih => exact ih.tick (lines ticks) (random)

end Session

end Chip8
