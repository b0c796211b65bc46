import Chip8.Proofs.Pace
import Chip8.Proofs.Session.Accounting

/-!
# The pace of a session

The cycles that a session has begun say how many ticks it has done. At the end of a tick they are
those that its ticks are due. A session that ends does so among the cycles of one more tick: with
fewer of them begun than that tick was due if it was the limit that stopped it, and with at least
one of them if it was a fault. From this and from the account of the steps follows what a session
has done when it ends, and that a limit always ends it.
-/

namespace Chip8.Session

/-- The results of the steps that a session makes in a number of ticks. -/
def steps (session : Session) (lines : Nat → List String) (random : Nat → UInt8) (ticks : Nat) :
    List (Except Fault Outcome) :=
  stepResults (session.heard lines random ticks)

/-- How often a session counts its timers down in a number of ticks. -/
def countdowns (session : Session) (lines : Nat → List String) (random : Nat → UInt8)
    (ticks : Nat) : Nat :=
  (tickSounds (session.heard lines random ticks)).length

variable {session : Session}

/-- A cycle leaves the pace and the limit as they are. -/
theorem cycle_same (session : Session) (random : UInt8) :
    (session.cycle random).clock = session.clock ∧
      (session.cycle random).limit = session.limit := by
  obtain ⟨-, same⟩ | ⟨-, fault, records, -, -, same⟩ | ⟨-, outcome, announced, records, -, same⟩ :=
    session.cycle_cases random
  all_goals rw [same]; exact ⟨rfl, rfl⟩

/-- So does any number of cycles. -/
theorem burst_same (random : Nat → UInt8) (count : Nat) (session : Session) :
    (burst random count session).clock = session.clock ∧
      (burst random count session).limit = session.limit := by
  refine burst_invariant (motive := fun _ after =>
    after.clock = session.clock ∧ after.limit = session.limit) ?_ random count [] session ⟨rfl, rfl⟩
  intro _ before random _ same
  obtain ⟨clock, limit⟩ := before.cycle_same random
  exact ⟨clock.trans same.1, limit.trans same.2⟩

/-- The cycles of a tick leave the limit as it is, and the clock where the tick has set it. -/
theorem worked_same (session : Session) (lines : List String) (random : Nat → UInt8) :
    (session.worked lines random).clock = session.clock.next.2 ∧
      (session.worked lines random).limit = session.limit := by
  obtain ⟨-, limit, -, clock⟩ := session.opened_same lines
  rw [worked, (burst_same _ _ _).1, (burst_same _ _ _).2, clock, limit]
  exact ⟨rfl, rfl⟩

/-- The limit of a session never changes. -/
theorem limit_run (lines : Nat → List String) (random : Nat → UInt8) (ticks : Nat)
    (session : Session) : (run lines random ticks session).limit = session.limit := by
  induction ticks with
  | zero => rfl
  | succ ticks ih =>
    rw [run, ← ih]
    cases ending : (run lines random ticks session).ending with
    | some ending => rw [tick_of_ended _ _ _ _ ‹_›]
    | none =>
      rw [tick_of_open ending]
      cases ((run lines random ticks session).worked (lines ticks) random).ending with
      | some _ => exact (worked_same _ _ _).2
      | none => exact (refresh_countDown_same _).2.1.trans (worked_same _ _ _).2

/-- How far a session came that was to go on with its cycles from the number `first` to the number
`last`. -/
inductive Ran (session : Session) (first last : Nat) : Prop
  /-- It made all of them. -/
  | through (ending : session.ending = none) (cycles : session.cycles = last)
  /-- The limit kept it from one of them. -/
  | limited (ending : session.ending = some .limit) (low : first ≤ session.cycles)
    (high : session.cycles < last)
  /-- One of them faulted. -/
  | faulted (fault : Fault) (ending : session.ending = some (.fault fault))
    (low : first < session.cycles) (high : session.cycles ≤ last)

/-- What holds of the cycles after the first holds of all of them. -/
theorem Ran.of_succ {first last : Nat} (ran : session.Ran (first + 1) last) :
    session.Ran first last := by
  cases ran with
  | through ending cycles => exact .through ending cycles
  | limited ending low high => exact .limited ending (by omega) high
  | faulted fault ending low high => exact .faulted fault ending (by omega) high

/-- A session that goes on is to make as many cycles as it is told. -/
theorem ran_burst (goesOn : session.ending = none) (random : Nat → UInt8) (count : Nat) :
    (burst random count session).Ran session.cycles (session.cycles + count) := by
  induction count generalizing session with
  | zero => exact .through goesOn rfl
  | succ count ih =>
    rw [burst_succ goesOn]
    obtain ⟨-, same⟩ | ⟨-, fault, records, -, -, same⟩ |
      ⟨-, outcome, announced, records, -, same⟩ := session.cycle_cases (random session.cycles)
    · rw [same, burst_of_ended rfl]
      exact .limited rfl (Nat.le_refl _) (by show session.cycles < _; omega)
    · rw [same, burst_of_ended rfl]
      exact .faulted fault rfl (Nat.lt_succ_self _) (by show session.cycles + 1 ≤ _; omega)
    · have goesOnToo : (session.cycle (random session.cycles)).ending = none := by
        rw [same]
        exact goesOn
      have counted : (session.cycle (random session.cycles)).cycles = session.cycles + 1 := by
        rw [same]
      have later := ih goesOnToo
      rw [counted] at later
      have arranged : session.cycles + 1 + count = session.cycles + (count + 1) := by omega
      rw [arranged] at later
      exact later.of_succ

/-- The cycles of a tick hear of no tick. -/
theorem tickSounds_burst (random : Nat → UInt8) (count : Nat) (session : Session)
    (interpreter : Interpreter) :
    tickSounds (interpreter.transcript (burstCommands random count session)) = [] := by
  refine burst_invariant (motive := fun commands _ =>
    tickSounds (interpreter.transcript commands) = []) ?_ random count [] session rfl
  intro commands before random _ silent
  rw [Interpreter.transcript_append, tickSounds_append, silent, List.nil_append, cycleCommands]
  split
  case isTrue => rfl
  case isFalse => rfl

/-- Neither do the keys at its start. -/
theorem tickSounds_worked (session : Session) (lines : List String) (random : Nat → UInt8) :
    tickSounds (session.interpreter.transcript (session.workedCommands lines random)) = [] := by
  rw [workedCommands, Interpreter.transcript_append, tickSounds_append, tickSounds_burst,
    (session.heard_keyCommands lines).2, List.append_nil]

/-- Where a session is that has done a number of ticks: between that tick and the next, or ended
among the cycles of the next. -/
inductive Paced (session : Session) (settings : Settings) (ticks : Nat) : Prop
  /-- The tick is over, with the cycles that were due. -/
  | between (ending : session.ending = none) (clock : session.clock.Counted settings ticks)
    (cycles : session.cycles = settings.due ticks)
  /-- The next tick was begun and never finished. -/
  | among (ended : session.ending ≠ none)
    (ran : session.Ran (settings.due ticks) (settings.due (ticks + 1)))

variable {settings : Settings} {ticks : Nat}

/-- The cycles of a tick take a session from those that were due before to those that are due after
it. -/
theorem Paced.worked (clock : session.clock.Counted settings ticks)
    (goesOn : session.ending = none) (cycles : session.cycles = settings.due ticks)
    (lines : List String) (random : Nat → UInt8) :
    (session.worked lines random).Ran (settings.due ticks) (settings.due (ticks + 1)) := by
  obtain ⟨sameCycles, -, sameEnding, -⟩ := session.opened_same lines
  have ran := ran_burst (sameEnding.trans goesOn) random session.clock.next.1.toNat
  rw [sameCycles, cycles, clock.due_next] at ran
  exact ran

/-- A tick keeps the pace. -/
theorem Paced.tick (paced : session.Paced settings ticks) (lines : List String)
    (random : Nat → UInt8) :
    (session.tick lines random).Paced settings (ticks + (tickSounds
      (session.interpreter.transcript (session.tickCommands lines random))).length) := by
  cases paced with
  | among ended ran =>
    obtain ⟨ending, already⟩ := Option.ne_none_iff_exists'.mp ended
    have nothing : session.tickCommands lines random = [] := by
      simp only [tickCommands, already]
    rw [tick_of_ended _ _ _ _ already, nothing]
    exact .among ended ran
  | between ending clock cycles =>
    have ran := Paced.worked clock ending cycles lines random
    have silent := session.tickSounds_worked lines random
    rw [tick_of_open ending]
    simp only [tickCommands, ending]
    cases after : (session.worked lines random).ending with
    | some _ =>
      simp only [List.append_nil, silent]
      refine .among ?_ ran
      rw [after]
      exact Option.some_ne_none _
    | none =>
      simp only
      rw [Interpreter.transcript_append, tickSounds_append, silent]
      obtain ⟨sameCycles, -, sameEnding, sameClock⟩ :=
        (session.worked lines random).refresh_countDown_same
      show (session.worked lines random).countDown.refresh.Paced settings (ticks + 1)
      cases ran with
      | limited ended low high => cases after.symm.trans ended
      | faulted fault ended low high => cases after.symm.trans ended
      | through _ made =>
        refine .between (sameEnding.trans after) ?_ (sameCycles.trans made)
        rw [sameClock, (session.worked_same lines random).1]
        exact clock.next

/-- One more tick is heard after those before it. -/
theorem heard_succ (session : Session) (lines : Nat → List String) (random : Nat → UInt8)
    (ticks : Nat) :
    session.heard lines random (ticks + 1) = session.heard lines random ticks ++
      (run lines random ticks session).interpreter.transcript
        ((run lines random ticks session).tickCommands (lines ticks) random) := by
  rw [heard, performed, Interpreter.transcript_append, ← interpreter_run]
  rfl

/-- The steps of one more tick come after those before it. -/
theorem steps_succ (session : Session) (lines : Nat → List String) (random : Nat → UInt8)
    (ticks : Nat) :
    session.steps lines random (ticks + 1) = session.steps lines random ticks ++
      stepResults ((run lines random ticks session).interpreter.transcript
        ((run lines random ticks session).tickCommands (lines ticks) random)) := by
  rw [steps, heard_succ, stepResults_append]
  rfl

/-- No step is ever taken back. -/
theorem steps_prefix (session : Session) (lines : Nat → List String) (random : Nat → UInt8)
    {earlier later : Nat} (le : earlier ≤ later) :
    session.steps lines random earlier <+: session.steps lines random later := by
  induction le with
  | refl => exact List.prefix_rfl
  | step le ih =>
    rw [steps_succ]
    exact ih.trans (List.prefix_append _ _)

/-- Once so many steps have been made without a fault, none of so many is ever seen to fault. -/
theorem flawless_take_steps {lines : Nat → List String} {random : Nat → UInt8}
    {ticks count : Nat} (made : count ≤ (session.steps lines random ticks).length)
    (flawless : Flawless (session.steps lines random ticks)) (other : Nat) :
    Flawless ((session.steps lines random other).take count) := by
  intro result member
  refine flawless result ?_
  obtain before | after := Nat.le_total other ticks
  · exact (session.steps_prefix lines random before).subset (List.mem_of_mem_take member)
  · obtain ⟨rest, whole⟩ := session.steps_prefix lines random after
    rw [← whole, List.take_append_of_le_length made] at member
    exact List.mem_of_mem_take member

/-- A session keeps its pace. -/
theorem Paced.run (paced : session.Paced settings 0) (lines : Nat → List String)
    (random : Nat → UInt8) (ticks : Nat) :
    (run lines random ticks session).Paced settings (session.countdowns lines random ticks) := by
  induction ticks with
  | zero => exact paced
  | succ ticks ih =>
    have kept := ih.tick (lines ticks) random
    rw [countdowns, heard_succ, tickSounds_append, List.length_append]
    exact kept

/-- A session that goes on has counted its timers down in every tick. -/
theorem countdowns_of_open {lines : Nat → List String} {random : Nat → UInt8} {ticks : Nat}
    (goesOn : (run lines random ticks session).ending = none) :
    session.countdowns lines random ticks = ticks := by
  induction ticks with
  | zero => rfl
  | succ ticks ih =>
    have silent := (run lines random ticks session).tickSounds_worked (lines ticks) random
    have earlier := ih (open_of_tick goesOn).1
    unfold countdowns at earlier ⊢
    rw [heard_succ, tickCommands_of_done goesOn, tickSounds_append, List.length_append, earlier,
      Interpreter.transcript_append, tickSounds_append, silent]
    rfl

/-- The results of the steps end with the fault of the last thing that was done. -/
theorem steps_of_faulted {lines : Nat → List String} {random : Nat → UInt8} {ticks : Nat}
    {before : List Command} {byte : UInt8} {fault : Fault}
    (last : session.performed lines random ticks = before ++ [.step byte])
    (failed : ((session.interpreter.applyAll before).step byte).1 = .error fault) :
    session.steps lines random ticks =
      stepResults (session.interpreter.transcript before) ++ [.error fault] := by
  rw [steps, heard, last, Interpreter.stepResults_step, failed]

section Runs

variable {lines : Nat → List String} {random : Nat → UInt8}
  (accounted : session.Accounted session.interpreter []) (paced : session.Paced settings 0)

include accounted paced

/-- While a session goes on, it has made the steps that its ticks are due. -/
theorem length_steps_of_open (goesOn : (run lines random ticks session).ending = none) :
    (session.steps lines random ticks).length = settings.due ticks ∧
      session.countdowns lines random ticks = ticks := by
  have counted := countdowns_of_open goesOn
  have made := (accounted.run lines random ticks).cycles
  cases paced.run lines random ticks with
  | among ended ran => exact absurd goesOn ended
  | between ending clock cycles =>
    rw [counted] at cycles
    exact ⟨made.symm.trans cycles, counted⟩

/-- A limit ends a session. -/
theorem exists_ended (runs : settings.cpuRate ≠ 0) {limit : Nat}
    (given : session.limit = some limit) :
    ∃ ticks, (run lines random ticks session).ending ≠ none := by
  -- So many ticks are due more cycles than the limit, even if most of them are due none.
  refine ⟨(limit + 1) * settings.tickRate, fun goesOn => ?_⟩
  have made := (length_steps_of_open accounted paced goesOn).1
  have whole := accounted.run lines random ((limit + 1) * settings.tickRate)
  have within := whole.within limit ((limit_run _ _ _ _).trans given)
  have counted : (run lines random ((limit + 1) * settings.tickRate) session).cycles =
      settings.due ((limit + 1) * settings.tickRate) := whole.cycles.trans made
  have beyond := settings.lt_due runs limit
  omega

omit paced in
/-- If no step that is allowed has faulted, it is the limit that has ended a session. -/
theorem limited_of_flawless {limit : Nat} (given : session.limit = some limit)
    (flawless : Flawless ((session.steps lines random ticks).take limit))
    (ended : (run lines random ticks session).ending ≠ none) :
    (run lines random ticks session).ending = some .limit := by
  have whole := accounted.run lines random ticks
  have within := whole.within limit ((limit_run _ _ _ _).trans given)
  have all : (session.steps lines random ticks).length ≤ limit := whole.cycles.symm.trans_le within
  rw [List.take_of_length_le all] at flawless
  cases whole.verdict with
  | goesOn ending _ => exact absurd ending ended
  | limited ending reached _ => exact ending
  | faulted before byte fault ending last _ failed noted =>
    have member : .error fault ∈ session.steps lines random ticks := by
      rw [steps_of_faulted last failed]
      exact List.mem_concat_self
    obtain ⟨outcome, executed⟩ := flawless _ member
    cases executed

/-- A session that its limit has ended has made all the steps that are allowed, and the ticks that
are done with those. -/
theorem account_of_limited (ended : (run lines random ticks session).ending = some .limit) :
    session.limit = some (session.steps lines random ticks).length ∧
      IsGreatest {count | settings.due count ≤ (session.steps lines random ticks).length}
        (session.countdowns lines random ticks) := by
  have whole := accounted.run lines random ticks
  have made : (run lines random ticks session).cycles =
      (session.steps lines random ticks).length := whole.cycles
  constructor
  · cases whole.verdict with
    | limited ending reached flawless => rw [← limit_run lines random ticks, reached, made]
    | goesOn ending flawless => cases ended.symm.trans ending
    | faulted before byte fault ending last flawless failed noted => cases ended.symm.trans ending
  · cases paced.run lines random ticks with
    | between ending clock cycles => cases ended.symm.trans ending
    | among _ ran =>
      rw [← made]
      cases ran with
      | through ending cycles => cases ended.symm.trans ending
      | limited ending low high => exact settings.isGreatest_due low high
      | faulted fault ending low high => cases ended.symm.trans ending

/-- A step that faults is the last thing that a session does, and ends it with that fault among the
cycles of the tick after those that are done with the steps before it. -/
theorem account_of_faulted {made : Nat} {fault : Fault}
    (failed : (session.steps lines random ticks)[made]? = some (.error fault)) :
    (run lines random ticks session).ending = some (.fault fault) ∧
      (session.steps lines random ticks).length = made + 1 ∧
      IsGreatest {count | settings.due count ≤ made} (session.countdowns lines random ticks) ∧
      (∃ before byte, session.performed lines random ticks = before ++ [.step byte]) ∧
      ∃ pc, (run lines random ticks session).pending.getLast? =
        some (.record (.faulted pc fault)) := by
  have whole := accounted.run lines random ticks
  cases whole.verdict with
  | goesOn ending flawless => exact absurd failed (flawless.getElem?_ne _ _)
  | limited ending reached flawless => exact absurd failed (flawless.getElem?_ne _ _)
  | faulted before byte first ending last flawless result noted =>
    -- No step but the last has faulted, so the fault that is given is the one of the last.
    have results := steps_of_faulted last result
    rw [results] at failed
    obtain ⟨rfl, rfl⟩ := flawless.eq_of_getElem?_concat failed
    have length : (session.steps lines random ticks).length =
        (stepResults (session.interpreter.transcript before)).length + 1 := by
      rw [results, List.length_append, List.length_singleton]
    refine ⟨ending, length, ?_, ⟨before, byte, last⟩, ?_⟩
    · have made : (run lines random ticks session).cycles =
          (session.steps lines random ticks).length := whole.cycles
      rw [length] at made
      cases paced.run lines random ticks with
      | between goesOn clock cycles => cases goesOn.symm.trans ending
      | among ended ran =>
        cases ran with
        | through goesOn cycles => cases goesOn.symm.trans ending
        | limited limited low high => cases limited.symm.trans ending
        | faulted other faulted low high =>
          rw [made] at low high
          exact settings.isGreatest_due (Nat.le_of_lt_succ low) high
    · obtain ⟨pc, newest⟩ := noted
      refine ⟨pc, ?_⟩
      rw [pending, List.getLast?_reverse]
      exact newest

end Runs

/-- A session is accounted for before its first tick. -/
theorem accounted_begun (settings : Settings) (name : String) (program : List UInt8)
    (limit : Option Nat) :
    (begun settings name program limit).Accounted (begun settings name program limit).interpreter
      [] := by
  refine ⟨rfl, ?_, ?_, .goesOn ?_ ?_⟩
  · rw [begun, note_eq]
    rfl
  · intro limit _
    rw [begun, note_eq]
    exact Nat.zero_le _
  · rw [begun, note_eq]
  · intro result member
    cases member

/-- It is at its pace then. -/
theorem paced_begun (settings : Settings) (name : String) (program : List UInt8)
    (limit : Option Nat) : (begun settings name program limit).Paced settings 0 := by
  have none : settings.due 0 = 0 := by
    rw [Settings.due, Nat.zero_mul, Nat.zero_div]
  refine .between ?_ ?_ ?_
  · rw [begun, note_eq]
  · rw [begun, note_eq]
    exact Clock.counted_ofSettings settings
  · rw [begun, note_eq, none]

/-- With settings that are accepted and a program for which there is room, a session starts, and it
accounts for its steps and its ticks. Nothing happens to its interpreter but the commands counted
here, it has counted as many cycles as it has made steps, and as long as it goes on every tick has
had the cycles that it was due. If it has a limit and none of the steps that are allowed faults, it
ends after all of these, and after the ticks that are done with so many. A step that faults ends it
with that very fault after the ticks that are done with the steps before: the step is the last thing
that is done, and the fault the last that is handed out. Without a limit nothing else ends it. -/
theorem start_accounts {settings : Settings} (accepted : settings.check = .ok ())
    (program : List UInt8) (fits : program.length ≤ 3584) (name : String) (limit : Option Nat)
    (lines : Nat → List String) (random : Nat → UInt8) :
    ∃ session, start settings name (.ok program) limit = .ok session ∧
      (∀ ticks, (run lines random ticks session).interpreter =
          session.interpreter.applyAll (session.performed lines random ticks) ∧
        (run lines random ticks session).cycles = (session.steps lines random ticks).length ∧
        ((run lines random ticks session).ending = none →
          (session.steps lines random ticks).length =
            ticks * settings.cpuRate.toNat / settings.timerRate.toNat ∧
          session.countdowns lines random ticks = ticks)) ∧
      (∀ allowed, limit = some allowed →
        (∀ ticks, Flawless ((session.steps lines random ticks).take allowed)) →
        ∃ ticks, (run lines random ticks session).ending = some .limit ∧
          (session.steps lines random ticks).length = allowed ∧
          IsGreatest {count | count * settings.cpuRate.toNat / settings.timerRate.toNat ≤ allowed}
            (session.countdowns lines random ticks)) ∧
      (∀ made fault ticks, (session.steps lines random ticks)[made]? = some (.error fault) →
        (run lines random ticks session).ending = some (.fault fault) ∧
          (session.steps lines random ticks).length = made + 1 ∧
          IsGreatest {count | count * settings.cpuRate.toNat / settings.timerRate.toNat ≤ made}
            (session.countdowns lines random ticks) ∧
          (∃ before byte, session.performed lines random ticks = before ++ [.step byte]) ∧
          ∃ pc, (run lines random ticks session).pending.getLast? =
            some (.record (.faulted pc fault))) ∧
      (limit = none → ∀ ticks, (run lines random ticks session).ending ≠ some .limit) := by
  have accounted := accounted_begun settings name program limit
  have paced := paced_begun settings name program limit
  have given : (begun settings name program limit).limit = limit := by
    rw [begun, note_eq]
  simp only [← Settings.due_of_accepted accepted]
  refine ⟨begun settings name program limit,
    (start_eq_ok_iff _ _ _ _ _).mpr ⟨accepted, program, rfl, fits, rfl⟩, ?_, ?_, ?_, ?_⟩
  · intro ticks
    exact ⟨interpreter_run _ _ _ _, (accounted.run lines random ticks).cycles,
      length_steps_of_open accounted paced⟩
  · intro allowed limited flawless
    have bounded := given.trans limited
    have runs : settings.cpuRate ≠ 0 := ((settings.check_eq_ok_iff).mp accepted).1
    obtain ⟨ticks, ended⟩ : ∃ ticks, (run lines random ticks _).ending ≠ none :=
      exists_ended accounted paced runs bounded
    have stopped := limited_of_flawless accounted bounded (flawless ticks) ended
    obtain ⟨reached, done⟩ := account_of_limited accounted paced stopped
    have all : allowed = ((begun settings name program limit).steps lines random ticks).length :=
      Option.some.inj (bounded.symm.trans reached)
    rw [← all] at done
    exact ⟨ticks, stopped, all.symm, done⟩
  · intro made fault ticks
    exact account_of_faulted accounted paced
  · intro unlimited ticks ended
    have reached := (account_of_limited accounted paced ended).1
    rw [given, unlimited] at reached
    cases reached

/-- One cycle in three ticks. -/
def leisurely : Settings := { cpuRate := 1, timerRate := 3 }

/-- At that pace a session of two cycles is over when eight ticks are done with them, and one whose
program returns from nowhere in its second step faults when five are done with the first. -/
theorem start_accounts_leisurely :
    (∃ session, start leisurely "loop" (.ok [0x12, 0x00]) (some 2) = .ok session ∧
      (∀ ticks, Flawless ((session.steps (fun _ => []) (fun _ => 0) ticks).take 2)) ∧
      ∃ ticks, (run (fun _ => []) (fun _ => 0) ticks session).ending = some .limit ∧
        (session.steps (fun _ => []) (fun _ => 0) ticks).length = 2 ∧
        session.countdowns (fun _ => []) (fun _ => 0) ticks = 8) ∧
    ∃ session, start leisurely "return" (.ok [0x60, 0x01, 0x00, 0xEE]) none = .ok session ∧
      (session.steps (fun _ => []) (fun _ => 0) 6)[1]? = some (.error (.stackUnderflow 0x202)) ∧
      (run (fun _ => []) (fun _ => 0) 6 session).ending =
        some (.fault (.stackUnderflow 0x202)) ∧
      (session.steps (fun _ => []) (fun _ => 0) 6).length = 2 ∧
      session.countdowns (fun _ => []) (fun _ => 0) 6 = 5 := by
  have accepted : leisurely.check = .ok () := by decide
  have done (made ticks : Nat) (last : 3 * made + 2 = ticks) :
      IsGreatest {count | count * leisurely.cpuRate.toNat / leisurely.timerRate.toNat ≤ made}
        ticks := by
    have rates : leisurely.cpuRate.toNat = 1 ∧ leisurely.timerRate.toNat = 3 := by decide
    rw [rates.1, rates.2]
    constructor
    · show ticks * 1 / 3 ≤ made
      omega
    · intro count within
      have within : count * 1 / 3 ≤ made := within
      omega
  constructor
  · obtain ⟨session, started, -, limited, -, -⟩ :=
      start_accounts accepted [0x12, 0x00] (by decide) "loop" (some 2) (fun _ => []) (fun _ => 0)
    obtain ⟨-, bytes, same, -, begins⟩ := (start_eq_ok_iff _ _ _ _ _).mp started
    have program : bytes = [0x12, 0x00] := (Except.ok.inj same).symm
    have jumps : session.steps (fun _ => []) (fun _ => 0) 6 =
        [.ok (.executed (.jump 0x200)), .ok (.executed (.jump 0x200))] := by
      rw [begins, program]
      decide +kernel
    have flawless : Flawless (session.steps (fun _ => []) (fun _ => 0) 6) := by
      rw [jumps]
      simp [Flawless]
    have both : 2 ≤ (session.steps (fun _ => []) (fun _ => 0) 6).length := by
      rw [jumps]
      decide
    have free := flawless_take_steps both flawless
    obtain ⟨ticks, ended, made, greatest⟩ := limited 2 rfl free
    exact ⟨session, started, free, ticks, ended, made, greatest.unique (done 2 8 rfl)⟩
  · obtain ⟨session, started, -, -, faulted, -⟩ :=
      start_accounts accepted [0x60, 0x01, 0x00, 0xEE] (by decide) "return" none (fun _ => [])
        (fun _ => 0)
    obtain ⟨-, bytes, same, -, begins⟩ := (start_eq_ok_iff _ _ _ _ _).mp started
    have program : bytes = [0x60, 0x01, 0x00, 0xEE] := (Except.ok.inj same).symm
    have failed : (session.steps (fun _ => []) (fun _ => 0) 6)[1]? =
        some (.error (.stackUnderflow 0x202)) := by
      rw [begins, program]
      decide +kernel
    obtain ⟨ended, made, greatest, -, -⟩ := faulted 1 _ 6 failed
    exact ⟨session, started, failed, ended, made, greatest.unique (done 1 5 rfl)⟩

end Chip8.Session
