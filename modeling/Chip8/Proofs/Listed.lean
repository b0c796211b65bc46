import Chip8.Proofs.Independence
import Chip8.Proofs.ReturnAddresses
import Chip8.Proofs.Transcript

/-!
# The interpreter with a list of calls

A third account of the interpreter, which has no slots: the calls that have not returned are a list
of addresses. A call appends its address, a return takes the last one away and goes on after it, and
everything else is done without a look at the list. An interpreter does what its list does, command
by command, so the addresses that a return leaves behind in the slots are never read before a call
has written over them.
-/

namespace Chip8

/-- An interpreter whose calls that have not returned are a list. -/
structure Listed where
  registers : Vector UInt8 16
  index : UInt16
  pc : UInt16
  /-- The addresses of the calls that have not returned, the oldest first. -/
  calls : List UInt16
  delay : UInt8
  sound : UInt8
  memory : Memory
  frame : Frame
  redraw : Bool
  awaiting : Option Register
  keys : Keys
  settings : Settings
  loaded : Bool

/-- An interpreter with the addresses that its stack holds instead of the stack. -/
def Interpreter.listed (interpreter : Interpreter) : Listed where
  registers := interpreter.machine.registers
  index := interpreter.machine.index
  pc := interpreter.machine.pc
  calls := interpreter.machine.stack.toList
  delay := interpreter.machine.delay
  sound := interpreter.machine.sound
  memory := interpreter.machine.memory
  frame := interpreter.machine.frame
  redraw := interpreter.machine.redraw
  awaiting := interpreter.machine.awaiting
  keys := interpreter.keys
  settings := interpreter.settings
  loaded := interpreter.loaded

namespace Listed

/-- All but the calls, as an interpreter in which nothing was called. -/
def bare (listed : Listed) : Interpreter where
  machine := {
    registers := listed.registers
    index := listed.index
    pc := listed.pc
    stack := .empty
    delay := listed.delay
    sound := listed.sound
    memory := listed.memory
    frame := listed.frame
    redraw := listed.redraw
    awaiting := listed.awaiting }
  keys := listed.keys
  settings := listed.settings
  loaded := listed.loaded

/-- The same calls beside what an interpreter in which nothing was called has become. -/
def resume (listed : Listed) (bare : Interpreter) : Listed :=
  { bare.listed with calls := listed.calls }

/-- A call appends its own address, unless there are sixteen. -/
def call (listed : Listed) (target : Address) : Except Fault Listed :=
  if listed.calls.length = 16 then .error (.stackOverflow listed.pc)
  else .ok { listed with pc := UInt16.ofNat target, calls := listed.calls ++ [listed.pc] }

/-- A return takes the last address away and goes on after it, unless there is none. -/
def ret (listed : Listed) : Except Fault Listed :=
  match listed.calls.getLast? with
  | none => .error (.stackUnderflow listed.pc)
  | some caller => .ok { listed with pc := caller + 2, calls := listed.calls.dropLast }

/-- What an instruction leaves: all but calls and returns are performed as if nothing was called. -/
def perform (listed : Listed) (random : UInt8) (instruction : Instruction) : Except Fault Listed :=
  match instruction with
  | .call target => listed.call target
  | .ret => listed.ret
  | _ =>
    (listed.bare.machine.perform (listed.bare.inputs random) instruction).map fun machine =>
      listed.resume { listed.bare with machine }

/-- One step, which a fault leaves as it was. -/
def step (listed : Listed) (random : UInt8) : Except Fault Outcome × Listed :=
  match listed.bare.machine.instruction with
  | .error fault => (.error fault, listed)
  | .ok instruction =>
    match listed.perform random instruction with
    | .error fault => (.error fault, listed)
    | .ok next =>
      (.ok (match next.awaiting with
        | some x => .awaiting x
        | none => .executed instruction), next)

/-- The reply to a command and what it leaves. A reset also empties the list; the others that are no
step leave it alone. -/
def apply (listed : Listed) : Command → Reply × Listed
  | .step random => (listed.step random).map .stepped id
  | .reset => (.done, listed.bare.reset.listed)
  | command => (listed.bare.apply command).map id listed.resume

/-- What is left after a list of commands. -/
def applyAll (listed : Listed) (commands : List Command) : Listed :=
  commands.foldl (fun current command => (current.apply command).2) listed

/-- What passes when a host gives a list of commands. -/
def transcript (listed : Listed) : List Command → List Exchange
  | [] => []
  | command :: rest =>
    ⟨command, (listed.apply command).1⟩ :: (listed.apply command).2.transcript rest

end Listed

/-- Two stacks hold the same addresses exactly if they agree on the slots in use. -/
theorem CallStack.toList_eq_iff (left right : CallStack) :
    left.toList = right.toList ↔ left.depth = right.depth ∧
      ∀ slot : Fin 16, slot.val < left.depth → left.slots.get slot = right.slots.get slot := by
  constructor
  · intro same
    have depth : left.depth = right.depth := by
      rw [← length_toList left, same, length_toList]
    refine ⟨depth, ?_⟩
    intro slot used
    have cell (stack : CallStack) (inside : slot.val < stack.depth) :
        stack.toList[slot.val]? = some (stack.slots.get slot) := by
      rw [toList, List.getElem?_take_of_lt inside]
      simp only [Vector.getElem?_toList, Fin.is_lt, Vector.getElem?_eq_getElem]
      rfl
    have both : some (left.slots.get slot) = some (right.slots.get slot) := by
      rw [← cell left used, ← cell right (depth ▸ used), same]
    exact Option.some.inj both
  · rintro ⟨depth, live⟩
    apply List.ext_getElem
    · rw [length_toList, length_toList, depth]
    · intro slot here there
      have bound := left.depth_le
      rw [length_toList] at here
      simp only [toList, List.getElem_take, Vector.getElem_toList]
      exact live ⟨slot, by omega⟩ here

namespace Machine

/-- An instruction that does not have to do with the stack does the same whatever the stack. -/
theorem perform_withStack (machine : Machine) (stack : CallStack) (inputs : Inputs)
    {instruction : Instruction} (apart : .stack ∉ instruction.writes) :
    { machine with stack }.perform inputs instruction =
      (machine.perform inputs instruction).map fun next => { next with stack } := by
  -- Whatever looks at the stack changes it.
  have unread : .stack ∉ instruction.reads := by
    cases instruction <;> simp [Instruction.reads]
  have ignored : instruction.Ignores .stack := ⟨unread, apart⟩
  exact machine.perform_graft { machine with stack } inputs ignored

end Machine

namespace Listed

/-- An instruction that does not have to do with the stack is performed as if nothing was called. -/
theorem perform_of_apart (listed : Listed) (random : UInt8) {instruction : Instruction}
    (apart : .stack ∉ instruction.writes) :
    listed.perform random instruction =
      (listed.bare.machine.perform (listed.bare.inputs random) instruction).map fun machine =>
        listed.resume { listed.bare with machine } := by
  cases instruction with
  | ret => exact absurd (by simp [Instruction.writes]) apart
  | call target => exact absurd (by simp [Instruction.writes]) apart
  | _ => rfl

end Listed

namespace Interpreter

variable (interpreter : Interpreter)

/-- Beside its calls, the list of an interpreter is the interpreter with an empty stack. -/
@[simp] theorem bare_listed :
    interpreter.listed.bare =
      { interpreter with machine := { interpreter.machine with stack := .empty } } := rfl

/-- A call does to the list what it does to the stack. -/
theorem call_listed (random : UInt8) (target : Address) :
    interpreter.listed.call target =
      (interpreter.machine.perform (interpreter.inputs random) (.call target)).map
        fun machine => { interpreter with machine }.listed := by
  have length : interpreter.listed.calls.length = interpreter.machine.stack.depth :=
    CallStack.length_toList _
  rw [Machine.perform, Listed.call, length]
  cases pushed : interpreter.machine.stack.push? interpreter.machine.pc with
  | none =>
    rw [if_pos ((CallStack.push?_eq_none_iff _ _).mp pushed)]
    rfl
  | some stack =>
    have room : interpreter.machine.stack.depth ≠ 16 := by
      rw [Ne, ← CallStack.push?_eq_none_iff _ interpreter.machine.pc, pushed]
      exact Option.some_ne_none _
    have calls : stack.toList = interpreter.listed.calls ++ [interpreter.listed.pc] :=
      CallStack.toList_of_push? pushed
    rw [if_neg room, ← calls]
    rfl

/-- So does a return. -/
theorem ret_listed (random : UInt8) :
    interpreter.listed.ret =
      (interpreter.machine.perform (interpreter.inputs random) .ret).map
        fun machine => { interpreter with machine }.listed := by
  rw [Machine.perform, Listed.ret]
  cases popped : interpreter.machine.stack.pop? with
  | none =>
    have depth := (CallStack.pop?_eq_none_iff _).mp popped
    have calls : interpreter.listed.calls = [] := by
      rw [← List.length_eq_zero_iff, ← depth]
      exact CallStack.length_toList _
    rw [calls]
    rfl
  | some result =>
    obtain ⟨caller, rest⟩ := result
    have calls : interpreter.listed.calls = rest.toList ++ [caller] :=
      CallStack.toList_of_pop? popped
    rw [calls, List.getLast?_concat, List.dropLast_concat]
    rfl

/-- Every instruction does to the list what it does to the interpreter. -/
theorem perform_listed (random : UInt8) (instruction : Instruction) :
    interpreter.listed.perform random instruction =
      (interpreter.machine.perform (interpreter.inputs random) instruction).map
        fun machine => { interpreter with machine }.listed := by
  by_cases writes : Part.stack ∈ instruction.writes
  · cases instruction with
    | ret => exact interpreter.ret_listed random
    | call target => exact interpreter.call_listed random target
    | _ => simp [Instruction.writes] at writes
  · have bare : interpreter.listed.bare.machine.perform (interpreter.listed.bare.inputs random)
        instruction = _ :=
      interpreter.machine.perform_withStack .empty (interpreter.inputs random) writes
    rw [Listed.perform_of_apart _ _ writes, bare]
    cases performed : interpreter.machine.perform (interpreter.inputs random) instruction with
    | error fault => rfl
    | ok next =>
      have kept : interpreter.machine.stack = next.stack :=
        Machine.perform_untouched performed .stack writes
      have calls : interpreter.listed.calls = next.stack.toList :=
        congrArg CallStack.toList kept
      simp only [Except.map, Listed.resume, calls]
      rfl

/-- A step does to the list what it does to the interpreter, and answers the same. -/
theorem step_listed (random : UInt8) :
    interpreter.listed.step random =
      ((interpreter.step random).1, (interpreter.step random).2.listed) := by
  have found : interpreter.listed.bare.machine.instruction = interpreter.machine.instruction :=
    Machine.instruction_congr rfl rfl
  rw [Listed.step, found, step, Machine.cycle]
  cases interpreter.machine.instruction with
  | error fault => rfl
  | ok instruction =>
    simp only [perform_listed]
    cases interpreter.machine.perform (interpreter.inputs random) instruction <;> rfl

/-- A load takes no notice of the calls. -/
theorem load_listed (program : List UInt8) :
    interpreter.listed.apply (.load program) =
      ((interpreter.apply (.load program)).1, (interpreter.apply (.load program)).2.listed) := by
  show (interpreter.listed.bare.load program |>.map Reply.loaded id |>.map id _) =
    (Reply.loaded (interpreter.load program).1, (interpreter.load program).2.listed)
  cases loaded : interpreter.loaded with
  | true =>
    have bare : interpreter.listed.bare.loaded = true := loaded
    rw [load_of_loaded loaded, load_of_loaded bare]
    rfl
  | false =>
    have bare : interpreter.listed.bare.loaded = false := loaded
    by_cases large : 3584 < program.length
    · rw [load_of_large loaded large, load_of_large bare large]
      rfl
    · have small : program.length ≤ 3584 := Nat.le_of_not_lt large
      rw [load_of_small loaded small, load_of_small bare small]
      rfl

/-- Neither does putting a key down or up. -/
theorem setKey_listed (byte : UInt8) (isDown : Bool) :
    (interpreter.listed.bare.setKey byte isDown).map Reply.keySet interpreter.listed.resume =
      (Reply.keySet (interpreter.setKey byte isDown).1,
        (interpreter.setKey byte isDown).2.listed) := by
  unfold setKey
  cases Key.ofByte byte with
  | error fault => rfl
  | ok key => rfl

/-- Every command does to the list what it does to the interpreter, with the same reply. -/
theorem apply_listed (command : Command) :
    interpreter.listed.apply command =
      ((interpreter.apply command).1, (interpreter.apply command).2.listed) := by
  cases command with
  | load program => exact interpreter.load_listed program
  | step random =>
    show (interpreter.listed.step random).map Reply.stepped id = _
    rw [step_listed]
    rfl
  | press key => exact interpreter.setKey_listed key true
  | release key => exact interpreter.setKey_listed key false
  | takeFrame =>
    obtain ⟨machine, keys, settings, loaded⟩ := interpreter
    obtain ⟨registers, index, pc, stack, delay, sound, memory, frame, redraw, awaiting⟩ := machine
    cases redraw with
    | true => rfl
    | false => rfl
  | _ => rfl

/-- Commands do to the list what they do to the interpreter, with the same replies. -/
theorem run_listed (commands : List Command) :
    interpreter.listed.transcript commands = interpreter.transcript commands ∧
      interpreter.listed.applyAll commands = (interpreter.applyAll commands).listed := by
  induction commands generalizing interpreter with
  | nil => exact ⟨rfl, rfl⟩
  | cons command rest ih =>
    obtain ⟨replies, left⟩ := ih (interpreter.apply command).2
    have one := interpreter.apply_listed command
    constructor
    · rw [Listed.transcript, one, replies]
      rfl
    · show (interpreter.listed.apply command).2.applyAll rest = _
      rw [one, left]
      rfl

/-- Two interpreters agree on everything but the slots that are not in use. -/
structure Alike (left right : Interpreter) : Prop where
  depth : left.machine.stack.depth = right.machine.stack.depth
  live : ∀ slot : Fin 16, slot.val < left.machine.stack.depth →
    left.machine.stack.slots.get slot = right.machine.stack.slots.get slot
  rest : { left with machine := { left.machine with stack := right.machine.stack } } = right

/-- Interpreters are alike exactly if their lists are the same. -/
theorem alike_iff (left right : Interpreter) : left.Alike right ↔ left.listed = right.listed := by
  constructor
  · rintro ⟨depth, live, rest⟩
    have calls := (CallStack.toList_eq_iff _ _).mpr ⟨depth, live⟩
    rw [← rest]
    simp only [listed, calls]
  · intro same
    obtain ⟨depth, live⟩ :=
      (CallStack.toList_eq_iff _ _).mp (congrArg Listed.calls same)
    refine ⟨depth, live, ?_⟩
    obtain ⟨⟨⟩, _⟩ := left
    obtain ⟨⟨⟩, _⟩ := right
    simp only [listed, Listed.mk.injEq] at same
    obtain ⟨rfl, rfl, rfl, -, rfl, rfl, rfl, rfl, rfl, rfl, rfl, rfl, rfl⟩ := same
    rfl

/-- What passes between a host and an interpreter is the same for a list of its calls, and that list
is what a run leaves. It never holds more than sixteen addresses, none of which the return from it
leads around the end of the words. And interpreters that agree on everything but the slots that are
not in use answer alike to any commands, and still agree so after them. -/
theorem Reachable.transcript_listed {interpreter : Interpreter} (reachable : interpreter.Reachable)
    (commands : List Command) :
    interpreter.listed.transcript commands = interpreter.transcript commands ∧
    interpreter.listed.applyAll commands = (interpreter.applyAll commands).listed ∧
    (interpreter.listed.applyAll commands).calls.length ≤ 16 ∧
    (∀ caller ∈ (interpreter.listed.applyAll commands).calls,
      (caller + 2).toNat = caller.toNat + 2) ∧
    ∀ other : Interpreter, interpreter.Alike other →
      interpreter.transcript commands = other.transcript commands ∧
        (interpreter.applyAll commands).Alike (other.applyAll commands) := by
  obtain ⟨replies, left⟩ := interpreter.run_listed commands
  refine ⟨replies, left, ?_, ?_, ?_⟩
  · rw [left]
    exact (CallStack.length_toList _).trans_le (CallStack.depth_le _)
  · intro caller member
    rw [left] at member
    have inside := (reachable.applyAll commands).returnable caller member
    exact Machine.toNat_add_two (by omega)
  · intro other alike
    rw [alike_iff] at alike ⊢
    obtain ⟨otherReplies, otherLeft⟩ := other.run_listed commands
    rw [← replies, ← otherReplies, ← left, ← otherLeft, alike]
    exact ⟨rfl, rfl⟩

/-- A program that calls one subroutine twice and falls into it. -/
def calledTwice : List UInt8 := [0x22, 0x04, 0x22, 0x04, 0x00, 0xEE]

/-- The interpreter that has returned from the first call. -/
def returned : Interpreter :=
  (powerOn .standard).applyAll [.load calledTwice, .step 0, .step 0]

/-- The same with the address wiped out that the first call left behind. -/
def wiped : Interpreter :=
  { returned with machine := { returned.machine with stack := .empty } }

/-- The second call, both returns and the fault of the last one do not bring to light whether the
address of the first call is still there. -/
theorem transcript_listed_returned :
    returned.Reachable ∧ returned.machine.stack ≠ wiped.machine.stack ∧ returned.Alike wiped ∧
      returned.transcript [.step 0, .step 0, .step 0] =
        wiped.transcript [.step 0, .step 0, .step 0] := by
  have reachable : returned.Reachable := (reachable_powerOn rfl).applyAll _
  obtain ⟨empty, differ⟩ : returned.machine.stack.depth = 0 ∧
      returned.machine.stack ≠ CallStack.empty := by decide +kernel
  have alike : returned.Alike wiped := by
    refine ⟨empty, ?_, rfl⟩
    intro slot used
    rw [empty] at used
    exact absurd used (Nat.not_lt_zero _)
  obtain ⟨-, -, -, -, others⟩ := reachable.transcript_listed [.step 0, .step 0, .step 0]
  exact ⟨reachable, differ, alike, (others wiped alike).1⟩

end Interpreter

end Chip8
