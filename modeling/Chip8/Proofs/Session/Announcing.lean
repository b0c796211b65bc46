import Chip8.Proofs.Session.Taps
import Mathlib.Data.List.Chain

/-!
# Announcing a wait

A session notes down that its program waits for a key, once for each wait. A wait is a stretch of
steps that all say that the program waits: it starts with the first that says so, and goes on over
any number of ticks, some of them without a step. What follows such a step is told at once by the
machine, which stands at the instruction that waits: the next step says the same of the same
register, or it takes a key into that register. The session remembers in a flag of its own whether
it has announced the wait, so the flag has to agree with the last step whenever another follows.
-/

namespace Chip8

/-- The register for which the program waits, if a step says that it does. -/
def waitsFor? : Except Fault Outcome → Option Register
  | .ok (.awaiting x) => some x
  | _ => none

/-- The register for which a record announces a wait. -/
def Record.announced? : Record → Option Register
  | .awaiting x => some x
  | _ => none

/-- The waits that some records announce, in order, by their registers. -/
def announcements (records : List Record) : List Register := records.filterMap Record.announced?

/-- What may become of a step after another: if that one says that the program waits for a key, this
one says the same, or that the wait was executed. -/
def Follows (earlier later : Except Fault Outcome) : Prop :=
  ∀ x, waitsFor? earlier = some x →
    later = .ok (.awaiting x) ∨ later = .ok (.executed (.awaitKey x))

/-- A result that names a register is that of a step at which the program waits for it. -/
theorem eq_awaiting_of_waitsFor? {result : Except Fault Outcome} {x : Register}
    (waits : waitsFor? result = some x) : result = .ok (.awaiting x) := by
  unfold waitsFor? at waits
  split at waits
  case h_1 =>
    cases waits
    rfl
  case h_2 => cases waits

/-- All the results of a wait name the register of its first, and what follows them is the execution
of the wait. -/
theorem eq_awaiting_of_chain {x : Register} {wait after : List (Except Fault Outcome)}
    (chain : (.ok (.awaiting x) :: (wait ++ after)).IsChain Follows)
    (waits : ∀ result ∈ wait, waitsFor? result ≠ none)
    (ends : ∀ result ∈ after.head?, waitsFor? result = none) :
    (∀ result ∈ wait, result = .ok (.awaiting x)) ∧
      ∀ result ∈ after.head?, result = .ok (.executed (.awaitKey x)) := by
  induction wait with
  | nil =>
    refine ⟨List.forall_mem_nil _, ?_⟩
    intro result member
    cases after with
    | nil => cases member
    | cons next rest =>
      obtain rfl : next = result := Option.some.inj member
      obtain rfl | executed := (List.isChain_cons_cons.mp chain).1 x rfl
      · cases ends _ rfl
      · exact executed
  | cons next rest ih =>
    obtain ⟨follows, later⟩ := List.isChain_cons_cons.mp chain
    obtain ⟨here, others⟩ := List.forall_mem_cons.mp waits
    obtain rfl | rfl := follows x rfl
    · obtain ⟨same, executed⟩ := ih later others
      exact ⟨List.forall_mem_cons.mpr ⟨rfl, same⟩, executed⟩
    · exact absurd rfl here

namespace Interpreter

variable {interpreter : Interpreter}

/-- Where a register is to be filled, a step says that the program waits for it, or that the wait
was executed. -/
theorem Reachable.step_of_attentive (reachable : interpreter.Reachable) {x : Register}
    (awaiting : interpreter.machine.awaiting = some x) (random : UInt8) :
    (interpreter.step random).1 = .ok (.awaiting x) ∨
      (interpreter.step random).1 = .ok (.executed (.awaitKey x)) := by
  have found := reachable.attentive x awaiting
  cases lowest : interpreter.keys.lowest? with
  | none => exact .inl (congrArg Prod.fst (step_of_up found lowest random))
  | some key => exact .inr (congrArg Prod.fst (step_of_down found lowest random))

/-- However a session plays, its steps follow one another. -/
theorem Reachable.isChain_follows (reachable : interpreter.Reachable) {commands : List Command}
    (plays : ∀ command ∈ commands, command.plays = true) :
    (stepResults (interpreter.transcript commands)).IsChain Follows := by
  induction commands using List.reverseRecOn with
  | nil => exact List.isChain_nil
  | append_singleton before command ih =>
    have earlier := fun other member => plays other (List.mem_append_left _ member)
    have chain := ih earlier
    cases command with
    | step random =>
      rw [stepResults_step, List.isChain_append]
      refine ⟨chain, List.isChain_singleton _, ?_⟩
      intro last member result same x waits
      obtain rfl : _ = result := Option.some.inj same
      have waiting : (stepResults (interpreter.transcript before)).getLast? =
          some (.ok (.awaiting x)) := by
        rw [← eq_awaiting_of_waitsFor? waits]
        exact member
      exact (reachable.applyAll before).step_of_attentive (awaiting_applyAll earlier waiting) random
    | _ =>
      rw [transcript_append, stepResults_append]
      exact (List.append_nil _).symm ▸ chain

end Interpreter

namespace Session

/-- A step of a session. -/
structure Stride where
  /-- What became of it. -/
  result : Except Fault Outcome
  /-- What was noted down with it. -/
  records : List Record

namespace Stride

/-- The register for which the program waits at a step. -/
def waitsFor? (stride : Stride) : Option Register := Chip8.waitsFor? stride.result

/-- The waits that are announced with a step. -/
def announced (stride : Stride) : List Register := announcements stride.records

/-- Whether the program waits at the last of some steps. -/
def waiting (strides : List Stride) : Bool := (strides.getLast?.bind waitsFor?).isSome

/-- The waits that a step is to announce after others: the one that starts there, if one does. -/
def due (before : List Stride) (stride : Stride) : List Register :=
  match stride.waitsFor? with
  | some x => if waiting before then [] else [x]
  | none => []

/-- Every step announces what it is to announce. -/
def Heralded (strides : List Stride) : Prop :=
  ∀ before stride after, strides = before ++ stride :: after → stride.announced = due before stride

/-- Steps at which the program waits, one after the other, with none just before and none just after
them at which it does. -/
structure IsWait (before wait after : List Stride) : Prop where
  nonempty : wait ≠ []
  waits : ∀ stride ∈ wait, stride.waitsFor? ≠ none
  starts : ∀ stride ∈ before.getLast?, stride.waitsFor? = none
  ends : ∀ stride ∈ after.head?, stride.waitsFor? = none

/-- One more step announces what it is to announce after the others. -/
theorem Heralded.concat {strides : List Stride} (heralded : Heralded strides) {last : Stride}
    (announced : last.announced = due strides last) : Heralded (strides ++ [last]) := by
  intro before stride after same
  cases after using List.reverseRecOn with
  | nil =>
    obtain ⟨rfl, one⟩ := List.append_inj' same rfl
    cases one
    exact announced
  | append_singleton later other =>
    rw [← List.cons_append, ← List.append_assoc] at same
    obtain ⟨rfl, -⟩ := List.append_inj' same rfl
    exact heralded before stride later rfl

end Stride

/-- The step of a cycle, which there is if one is allowed, with what the cycle adds to what is to be
handed out. -/
def cycleStrides (session : Session) (random : UInt8) : List Stride :=
  if session.exhausted then []
  else [⟨(session.interpreter.step random).1,
    records ((session.cycle random).pending.drop session.pending.length)⟩]

/-- The steps of a number of cycles. -/
def burstStrides (random : Nat → UInt8) : Nat → Session → List Stride
  | 0, _ => []
  | count + 1, session =>
    match session.ending with
    | some _ => []
    | none =>
      session.cycleStrides (random session.cycles) ++
        burstStrides random count (session.cycle (random session.cycles))

/-- The steps of the next tick. -/
def tickStrides (session : Session) (lines : List String) (random : Nat → UInt8) : List Stride :=
  match session.ending with
  | some _ => []
  | none => burstStrides random session.clock.next.1.toNat (session.opened lines)

/-- The steps of a number of ticks. -/
def strides (lines : Nat → List String) (random : Nat → UInt8) (session : Session) :
    Nat → List Stride
  | 0 => []
  | ticks + 1 =>
    strides lines random session ticks ++
      (run lines random ticks session).tickStrides (lines ticks) random

variable {session : Session}

/-- There are no steps after the end of a session. -/
theorem burstStrides_of_ended {ending : Ending} (ended : session.ending = some ending)
    (random : Nat → UInt8) (count : Nat) : burstStrides random count session = [] := by
  cases count with
  | zero => rfl
  | succ count => simp only [burstStrides, ended]

/-- The step of the first cycle comes before those of the others. -/
theorem burstStrides_succ (goesOn : session.ending = none) (random : Nat → UInt8) (count : Nat) :
    burstStrides random (count + 1) session =
      session.cycleStrides (random session.cycles) ++
        burstStrides random count (session.cycle (random session.cycles)) := by
  simp only [burstStrides, goesOn]

/-- A tick after the end of a session has no steps. -/
theorem tickStrides_of_ended {ending : Ending} (ended : session.ending = some ending)
    (lines : List String) (random : Nat → UInt8) : session.tickStrides lines random = [] := by
  simp only [tickStrides, ended]

/-- A tick of a session that goes on has the steps of its cycles. -/
theorem tickStrides_of_open (goesOn : session.ending = none) (lines : List String)
    (random : Nat → UInt8) :
    session.tickStrides lines random =
      burstStrides random session.clock.next.1.toNat (session.opened lines) := by
  simp only [tickStrides, goesOn]

/-- The waits that some records announce come before those of later ones. -/
theorem announcements_append (earlier later : List Record) :
    announcements (earlier ++ later) = announcements earlier ++ announcements later :=
  List.filterMap_append

/-- What the journal holds of some events comes before what it holds of later ones. -/
theorem records_append (earlier later : List Event) :
    records (earlier ++ later) = records earlier ++ records later := List.filterMap_append

/-- Of records the journal holds them all. -/
theorem records_map_record (noted : List Record) : records (noted.map .record) = noted := by
  rw [records, List.filterMap_map]
  exact List.filterMap_some

/-- What a session notes down in a cycle that is allowed: what its interpreter notes down, and the
wait that starts there. -/
def cycleRecords (session : Session) (random : UInt8) : List Record :=
  session.interpreter.stepRecords random ++
    match waitsFor? (session.interpreter.step random).1 with
    | some x => if session.announced then [] else [.awaiting x]
    | none => []

/-- A cycle that is allowed hands out what is noted down in it, and remembers a wait as announced
exactly if the program waits, unless it ends the session. -/
theorem cycle_of_allowed (allowed : session.exhausted = false) (random : UInt8) :
    (session.cycle random).pending =
        session.pending ++ (session.cycleRecords random).map .record ∧
      ((session.cycle random).ending = none → (session.cycle random).announced =
        (waitsFor? (session.interpreter.step random).1).isSome) := by
  rw [cycle, cycleRecords, allowed, if_neg Bool.false_ne_true, List.map_append,
    ← List.append_assoc, ← pending_note]
  cases stepped : session.interpreter.step random with
  | mk result interpreter =>
    cases result with
    | error fault =>
      refine ⟨(List.append_nil _).symm, fun goesOn => ?_⟩
      cases goesOn
    | ok outcome =>
      cases outcome with
      | executed instruction => exact ⟨(List.append_nil _).symm, fun _ => rfl⟩
      | awaiting x =>
        have kept : (session.note (session.interpreter.stepRecords random)).announced =
            session.announced := by
          rw [note_eq]
        simp only [follow, kept, waitsFor?]
        cases session.announced with
        | true => exact ⟨(List.append_nil _).symm, fun _ => rfl⟩
        | false => exact ⟨pending_note _ _, fun _ => rfl⟩

/-- What an interpreter notes down in a step announces no wait. -/
theorem announcements_stepRecords (interpreter : Interpreter) (random : UInt8) :
    announcements (interpreter.stepRecords random) = [] := by
  have machine : announcements interpreter.machine.records = [] := by
    unfold Machine.records
    split
    · rfl
    · split <;> rfl
  rw [Interpreter.stepRecords, announcements_append, machine, List.nil_append]
  split <;> rfl

/-- What a keyboard notes down announces none either. -/
theorem announcements_keyboard (keyboard : Keyboard) : announcements keyboard.records = [] := by
  refine List.filterMap_eq_nil_iff.mpr fun record member => ?_
  rw [Keyboard.records, List.mem_append] at member
  obtain unknown | down := member
  · obtain ⟨typed, -, noted⟩ := List.mem_filterMap.mp unknown
    cases typed with
    | tap key => cases noted
    | unknown char =>
      cases noted
      rfl
  · obtain ⟨key, -, rfl⟩ := List.mem_map.mp down
    rfl

/-- What is announced in a cycle that is allowed is the wait that starts there. -/
theorem announcements_cycleRecords (session : Session) (random : UInt8) :
    announcements (session.cycleRecords random) =
      match waitsFor? (session.interpreter.step random).1 with
      | some x => if session.announced then [] else [x]
      | none => [] := by
  rw [cycleRecords, announcements_append, announcements_stepRecords, List.nil_append]
  split
  · split <;> rfl
  · rfl

/-- A session has announced the waits of some steps: each where it starts and nowhere else, and it
remembers whether the wait that goes on was announced. -/
structure Announced (session : Session) (strides : List Stride) : Prop where
  latch : session.ending = none → session.announced = Stride.waiting strides
  journal : announcements (records session.pending) = strides.flatMap Stride.announced
  heralded : Stride.Heralded strides

/-- Whatever else is handed out and whatever else happens, the waits of the same steps are announced
if no wait is among it. -/
theorem Announced.quiet {strides : List Stride} (announced : session.Announced strides)
    {next : Session} {events : List Event} (pending : next.pending = session.pending ++ events)
    (nothing : announcements (records events) = [])
    (latch : next.ending = none → session.ending = none ∧ next.announced = session.announced) :
    next.Announced strides := by
  refine ⟨?_, ?_, announced.heralded⟩
  · intro goesOn
    obtain ⟨before, kept⟩ := latch goesOn
    exact kept.trans (announced.latch before)
  · rw [pending, records_append, announcements_append, nothing, List.append_nil, announced.journal]

/-- A cycle announces the wait that starts there. -/
theorem Announced.cycle {strides : List Stride} (announced : session.Announced strides)
    (goesOn : session.ending = none) (random : UInt8) :
    (session.cycle random).Announced (strides ++ session.cycleStrides random) := by
  cases exhausted : session.exhausted with
  | true =>
    have same : session.cycle random = session.finish .limit := by
      rw [Session.cycle, if_pos exhausted]
    rw [cycleStrides, if_pos exhausted, List.append_nil, same]
    refine announced.quiet (pending_note _ [.stopped session.cycles]) rfl ?_
    intro stillOpen
    cases stillOpen
  | false =>
    obtain ⟨pending, latch⟩ := cycle_of_allowed exhausted random
    rw [cycleStrides, if_neg (by rw [exhausted]; exact Bool.false_ne_true), pending,
      List.drop_left, records_map_record]
    refine ⟨?_, ?_, ?_⟩
    · intro stillOpen
      rw [latch stillOpen, Stride.waiting, List.getLast?_concat]
      rfl
    · rw [pending, records_append, announcements_append, announced.journal, records_map_record,
        List.flatMap_append, List.flatMap_singleton]
      rfl
    · refine announced.heralded.concat ?_
      rw [Stride.due, ← announced.latch goesOn]
      exact session.announcements_cycleRecords random

/-- So does any number of cycles. -/
theorem Announced.burst {strides : List Stride} (announced : session.Announced strides)
    (random : Nat → UInt8) (count : Nat) :
    (burst random count session).Announced (strides ++ burstStrides random count session) := by
  induction count generalizing session strides with
  | zero =>
    show session.Announced (strides ++ [])
    rw [List.append_nil]
    exact announced
  | succ count ih =>
    cases left : session.ending with
    | some ending =>
      rw [burst_of_ended left, burstStrides_of_ended left, List.append_nil]
      exact announced
    | none =>
      rw [burst_succ left, burstStrides_succ left, ← List.append_assoc]
      exact ih (announced.cycle left _)

/-- Taking in lines announces no wait. -/
theorem Announced.opened {strides : List Stride} (announced : session.Announced strides)
    (lines : List String) : (session.opened lines).Announced strides := by
  have nothing := announcements_keyboard (lines.foldl Keyboard.type session.keyboard)
  rw [← records_map_record (Keyboard.records _)] at nothing
  refine announced.quiet (pending_note { session with clock := session.clock.next.2 } _) nothing ?_
  intro goesOn
  refine ⟨(session.opened_same lines).2.2.1.symm.trans goesOn, ?_⟩
  simp only [Session.opened, takeIn, note_eq]

/-- Neither do the timers and the frame. -/
theorem Announced.refresh_countDown {strides : List Stride}
    (announced : session.Announced strides) : session.countDown.refresh.Announced strides := by
  have counted : session.countDown.Announced strides := by
    unfold countDown
    split
    · exact announced.quiet (List.append_nil _).symm rfl fun goesOn => ⟨goesOn, rfl⟩
    · exact announced.quiet (pending_emit _ _) rfl fun goesOn => ⟨goesOn, rfl⟩
  unfold refresh
  split
  · exact counted
  · exact counted.quiet (pending_emit _ _) rfl fun goesOn => ⟨goesOn, rfl⟩

/-- A tick announces the waits that start in it. -/
theorem Announced.tick {strides : List Stride} (announced : session.Announced strides)
    (lines : List String) (random : Nat → UInt8) :
    (session.tick lines random).Announced (strides ++ session.tickStrides lines random) := by
  cases left : session.ending with
  | some ending =>
    rw [tick_of_ended _ _ _ _ left, tickStrides_of_ended left, List.append_nil]
    exact announced
  | none =>
    have worked := (announced.opened lines).burst random session.clock.next.1.toNat
    rw [tick_of_open left, tickStrides_of_open left]
    cases (session.worked lines random).ending with
    | some _ => exact worked
    | none => exact worked.refresh_countDown

/-- So does any number of ticks. -/
theorem Announced.run (announced : session.Announced []) (lines : Nat → List String)
    (random : Nat → UInt8) (ticks : Nat) :
    (run lines random ticks session).Announced (session.strides lines random ticks) := by
  induction ticks with
  | zero => exact announced
  | succ ticks ih => exact ih.tick (lines ticks) random

/-- A session that has not begun has announced nothing. -/
theorem announced_begun (settings : Settings) (name : String) (program : List UInt8)
    (limit : Option Nat) : (begun settings name program limit).Announced [] := by
  refine ⟨fun _ => ?_, ?_, fun before stride after same => ?_⟩
  · rw [begun, note_eq]
    rfl
  · rw [begun, pending_note]
    rfl
  · cases before <;> cases same

/-- The steps of a number of cycles are those that their commands make. -/
theorem result_burstStrides (random : Nat → UInt8) (count : Nat) (session : Session) :
    (burstStrides random count session).map Stride.result =
      stepResults (session.interpreter.transcript (burstCommands random count session)) := by
  induction count generalizing session with
  | zero => rfl
  | succ count ih =>
    cases left : session.ending with
    | some ending =>
      rw [burstStrides_of_ended left, burstCommands_of_ended left]
      rfl
    | none =>
      have first : (session.cycleStrides (random session.cycles)).map Stride.result =
          stepResults (session.interpreter.transcript
            (session.cycleCommands (random session.cycles))) := by
        rw [cycleStrides, cycleCommands]
        split <;> rfl
      rw [burstStrides_succ left, burstCommands_succ left, Interpreter.transcript_append,
        stepResults_append, List.map_append, first, ih, interpreter_cycle]

/-- So are the steps of a tick. -/
theorem result_tickStrides (session : Session) (lines : List String) (random : Nat → UInt8) :
    (session.tickStrides lines random).map Stride.result =
      stepResults (session.interpreter.transcript (session.tickCommands lines random)) := by
  cases left : session.ending with
  | some ending =>
    rw [tickStrides_of_ended left]
    simp only [tickCommands, left]
    rfl
  | none =>
    obtain ⟨last, whole, afterwards⟩ := exists_tickCommands_eq left lines random
    have silent (interpreter : Interpreter) : stepResults (interpreter.transcript last) = [] := by
      obtain rfl | rfl := afterwards <;> rfl
    rw [tickStrides_of_open left, whole, workedCommands, Interpreter.transcript_append,
      Interpreter.transcript_append, stepResults_append, stepResults_append, silent,
      (session.heard_keyCommands lines).1, result_burstStrides, interpreter_opened,
      List.append_nil, List.nil_append]

/-- And those of a session are its steps. -/
theorem result_strides (session : Session) (lines : Nat → List String) (random : Nat → UInt8)
    (ticks : Nat) :
    (session.strides lines random ticks).map Stride.result = session.steps lines random ticks := by
  induction ticks with
  | zero => rfl
  | succ ticks ih =>
    rw [strides, List.map_append, ih, result_tickStrides, steps_succ]

namespace Stride

/-- After steps at which the program waits, it waits. -/
theorem waiting_append {before wait : List Stride} (nonempty : wait ≠ [])
    (waits : ∀ stride ∈ wait, stride.waitsFor? ≠ none) : waiting (before ++ wait) = true := by
  obtain ⟨earlier, last, rfl⟩ := List.eq_nil_or_concat' wait |>.resolve_left nonempty
  have some := waits last List.mem_concat_self
  rw [waiting, ← List.append_assoc, List.getLast?_concat]
  exact Option.isSome_iff_ne_none.mpr some

variable {before wait after : List Stride}

/-- A wait is announced with its first step alone. -/
theorem IsWait.announced (isWait : IsWait before wait after)
    (heralded : Heralded (before ++ wait ++ after)) :
    ∃ first rest x, wait = first :: rest ∧ first.waitsFor? = some x ∧
      first.announced = [x] ∧ ∀ stride ∈ rest, stride.announced = [] := by
  obtain ⟨first, rest, rfl⟩ := List.exists_cons_of_ne_nil isWait.nonempty
  obtain ⟨here, others⟩ := List.forall_mem_cons.mp isWait.waits
  obtain ⟨x, waits⟩ := Option.ne_none_iff_exists'.mp here
  refine ⟨first, rest, x, rfl, waits, ?_, ?_⟩
  · have fresh : waiting before = false := by
      rw [waiting, Option.isSome_eq_false_iff, Option.isNone_iff_eq_none, Option.bind_eq_none_iff]
      exact isWait.starts
    rw [heralded before first (rest ++ after) (by simp), due, waits]
    simp only [fresh, Bool.false_eq_true, if_false]
  · intro stride member
    obtain ⟨earlier, later, rfl⟩ := List.append_of_mem member
    have told : waiting (before ++ first :: earlier) = true := by
      refine waiting_append (List.cons_ne_nil _ _) fun other early => isWait.waits other ?_
      rw [← List.cons_append]
      exact List.mem_append_left _ early
    rw [heralded (before ++ first :: earlier) stride (later ++ after) (by simp), due]
    simp only [told, if_true]
    split <;> rfl

/-- All steps of a wait say the same, and what follows them is its execution. -/
theorem IsWait.same (isWait : IsWait before wait after) {first : Stride} {rest : List Stride}
    {x : Register} (starts : wait = first :: rest) (waits : first.waitsFor? = some x)
    (chain : ((before ++ wait ++ after).map Stride.result).IsChain Follows) :
    (∀ stride ∈ wait, stride.result = .ok (.awaiting x)) ∧
      ∀ next ∈ after.head?, next.result = .ok (.executed (.awaitKey x)) := by
  subst starts
  have named : first.result = .ok (.awaiting x) := eq_awaiting_of_waitsFor? waits
  rw [List.append_assoc, List.map_append, List.cons_append, List.map_cons, List.map_append,
    named] at chain
  have others : ∀ result ∈ rest.map Stride.result, Chip8.waitsFor? result ≠ none := by
    intro result member
    obtain ⟨stride, inside, rfl⟩ := List.mem_map.mp member
    exact isWait.waits stride (List.mem_cons_of_mem _ inside)
  have ends : ∀ result ∈ (after.map Stride.result).head?, Chip8.waitsFor? result = none := by
    intro result member
    rw [List.head?_map] at member
    obtain ⟨next, first, rfl⟩ := Option.mem_map.mp member
    exact isWait.ends next first
  obtain ⟨same, executed⟩ := eq_awaiting_of_chain chain.right_of_append others ends
  refine ⟨List.forall_mem_cons.mpr ⟨named, fun stride member => ?_⟩, fun next member => ?_⟩
  · exact same _ (List.mem_map_of_mem member)
  · refine executed _ ?_
    rw [List.head?_map]
    exact Option.mem_map_of_mem _ member

end Stride

/-- A session announces each wait for a key exactly once. Its steps are listed here with what is
noted down in each, and no wait is announced outside of them. In a stretch of steps at which the
program waits, as long as it can be, all steps name the same register; the first of them announces
the wait for it, and the others announce nothing; and if a step follows, that one executes this
wait. No other step announces any. -/
theorem wait_announced_once {settings : Settings} {name : String}
    {program : Except String (List UInt8)} {limit : Option Nat} {session : Session}
    (started : start settings name program limit = .ok session) (lines : Nat → List String)
    (random : Nat → UInt8) (ticks : Nat) :
    (session.strides lines random ticks).map Stride.result = session.steps lines random ticks ∧
    announcements (records (run lines random ticks session).pending) =
      (session.strides lines random ticks).flatMap Stride.announced ∧
    (∀ before wait after, session.strides lines random ticks = before ++ wait ++ after →
      Stride.IsWait before wait after →
      ∃ x, (∀ stride ∈ wait, stride.result = .ok (.awaiting x)) ∧
        wait.map Stride.announced = [x] :: List.replicate (wait.length - 1) [] ∧
        ∀ next ∈ after.head?, next.result = .ok (.executed (.awaitKey x))) ∧
    ∀ stride ∈ session.strides lines random ticks,
      stride.waitsFor? = none → stride.announced = [] := by
  obtain ⟨accepted, bytes, -, -, rfl⟩ := (start_eq_ok_iff _ _ _ _ _).mp started
  have announced := (announced_begun settings name bytes limit).run lines random ticks
  have results := result_strides (begun settings name bytes limit) lines random ticks
  have chain : (((begun settings name bytes limit).strides lines random ticks).map
      Stride.result).IsChain Follows := by
    rw [results]
    exact (reachable_begun accepted name bytes limit).isChain_follows
      (plays_performed lines random ticks)
  refine ⟨results, announced.journal, ?_, ?_⟩
  · intro before wait after whole isWait
    have heralded := announced.heralded
    rw [whole] at heralded chain
    obtain ⟨first, rest, x, starts, waits, once, nothing⟩ := isWait.announced heralded
    obtain ⟨same, executed⟩ := isWait.same starts waits chain
    refine ⟨x, same, ?_, executed⟩
    rw [starts, List.map_cons, once, List.length_cons, Nat.add_sub_cancel]
    exact congrArg ([x] :: ·) (List.map_eq_replicate_iff.mpr nothing)
  · intro stride member idle
    obtain ⟨before, after, whole⟩ := List.append_of_mem member
    rw [announced.heralded before stride after whole, Stride.due, idle]

/-- A tap in the sixth tick. -/
def late (tick : Nat) : List String := if tick = 5 then ["5"] else []

/-- A program that waits twice, with a cycle in every other tick and a tap at the third of these,
announces one wait at the first step and the other at the last. -/
theorem wait_announced_once_late :
    ∃ session, start halved "waits" (.ok [0xF0, 0x0A, 0xF1, 0x0A]) none = .ok session ∧
      session.steps late (fun _ => 0) 8 = [.ok (.awaiting 0), .ok (.awaiting 0),
        .ok (.executed (.awaitKey 0)), .ok (.awaiting 1)] ∧
      announcements (records (run late (fun _ => 0) 8 session).pending) = [0, 1] := by
  have accepted : halved.check = .ok () := by decide
  have started : start halved "waits" (.ok [0xF0, 0x0A, 0xF1, 0x0A]) none =
      .ok (begun halved "waits" [0xF0, 0x0A, 0xF1, 0x0A] none) :=
    (start_eq_ok_iff _ _ _ _ _).mpr ⟨accepted, _, rfl, by decide, rfl⟩
  have steps : (begun halved "waits" [0xF0, 0x0A, 0xF1, 0x0A] none).steps late (fun _ => 0) 8 =
      [.ok (.awaiting 0), .ok (.awaiting 0), .ok (.executed (.awaitKey 0)), .ok (.awaiting 1)] := by
    decide +kernel
  obtain ⟨results, journal, waits, others⟩ := wait_announced_once started late (fun _ => 0) 8
  simp only [steps, List.map_eq_cons_iff, List.map_eq_nil_iff] at results
  obtain ⟨first, _, whole, one, second, _, rfl, two, third, _, rfl, three, fourth, _, rfl, four,
    rfl⟩ := results
  rw [whole] at journal waits others
  have early : Stride.IsWait [] [first, second] [third, fourth] := by
    constructor <;> simp [Stride.waitsFor?, waitsFor?, one, two, three]
  have again : Stride.IsWait [first, second, third] [fourth] [] := by
    constructor <;> simp [Stride.waitsFor?, waitsFor?, three, four]
  obtain ⟨x, same, firstTwo, -⟩ := waits [] _ [third, fourth] rfl early
  obtain ⟨y, named, last, -⟩ := waits [first, second, third] _ [] rfl again
  have between := others third (by simp) (by simp [Stride.waitsFor?, waitsFor?, three])
  obtain rfl : (0 : Register) = x := by
    have told := same first (by simp)
    rw [one] at told
    cases told
    rfl
  obtain rfl : (1 : Register) = y := by
    have told := named fourth (by simp)
    rw [four] at told
    cases told
    rfl
  have opening : first.announced = [0] ∧ second.announced = [] := by simpa using firstTwo
  have closing : fourth.announced = [1] := by simpa using last
  refine ⟨_, started, steps, journal.trans ?_⟩
  simp only [List.flatMap_cons, List.flatMap_nil, opening, between, closing]
  rfl

end Session

end Chip8
