import Chip8.Proofs.ReturnAddresses
import Chip8.Proofs.Waiting

/-!
# Calls and returns

Only a call or a return changes the call stack, by the address of the call. Whatever a program and
its host do after a call, the addresses held before it and its own stay where they are until the
stack is as deep as before the call. What makes it so is then a return, which goes to just after the
call and leaves the addresses that were held before it.
-/

namespace Chip8

/-- Only the instructions that call or return have to do with the stack. -/
theorem Instruction.stack_mem_writes {instruction : Instruction}
    (writes : .stack ∈ instruction.writes) :
    instruction = .ret ∨ ∃ target, instruction = .call target := by
  cases instruction with
  | ret => exact .inl rfl
  | call target => exact .inr ⟨target, rfl⟩
  | _ => simp [Instruction.writes] at writes

namespace Interpreter

/-- What a command does to the call stack. -/
inductive StackChange (interpreter : Interpreter) (command : Command) : Prop
  /-- It leaves the stack as it is. -/
  | kept (same : (interpreter.apply command).2.machine.stack = interpreter.machine.stack)
  /-- It executes a call, whose address is held from then on. -/
  | called (random : UInt8) (target : Address) (steps : command = .step random)
    (executed : (interpreter.step random).1 = .ok (.executed (.call target)))
    (pushed : (interpreter.apply command).2.machine.stack.toList =
      interpreter.machine.stack.toList ++ [interpreter.machine.pc])
  /-- It executes a return, which goes to just after the address held last. -/
  | returned (random : UInt8) (caller : UInt16) (steps : command = .step random)
    (executed : (interpreter.step random).1 = .ok (.executed .ret))
    (popped : interpreter.machine.stack.toList =
      (interpreter.apply command).2.machine.stack.toList ++ [caller])
    (goes : (interpreter.apply command).2.machine.pc = caller + 2)

variable {interpreter : Interpreter}

/-- A step changes the stack by a call or a return, or not at all. -/
theorem Reachable.stackChange_step (reachable : interpreter.Reachable) (random : UInt8) :
    interpreter.StackChange (.step random) := by
  have left : (interpreter.apply (.step random)).2 = (interpreter.step random).2 := rfl
  obtain ⟨fault, -, same⟩ | ⟨instruction, next, found, performed, same⟩ :=
    interpreter.step_cases random
  · refine .kept ?_
    rw [left, same]
  · by_cases writes : Part.stack ∈ instruction.writes
    · obtain rfl | ⟨target, rfl⟩ := Instruction.stack_mem_writes writes
      · have stepped := reachable.step_of_perform found (fun _ => Instruction.noConfusion) performed
        obtain ⟨caller, rest, popped, rfl⟩ := Machine.of_perform_ret performed
        refine .returned random caller rfl ?_ ?_ ?_
        · rw [stepped]
        · rw [left, stepped, CallStack.toList_of_pop? popped]
        · rw [left, stepped]
      · have stepped := reachable.step_of_perform found (fun _ => Instruction.noConfusion) performed
        obtain ⟨stack, pushed, rfl⟩ := Machine.of_perform_call performed
        refine .called random target rfl ?_ ?_
        · rw [stepped]
        · rw [left, stepped, CallStack.toList_of_push? pushed]
    · have kept : interpreter.machine.stack = next.stack :=
        Machine.perform_untouched performed .stack writes
      refine .kept ?_
      rw [left, same, kept]

/-- Every command but a reset changes the stack by a call or a return, or not at all. -/
theorem Reachable.stackChange (reachable : interpreter.Reachable) {command : Command}
    (goesOn : command ≠ .reset) : interpreter.StackChange command := by
  cases command with
  | load program =>
    obtain ⟨memory, same⟩ := interpreter.machine_load program
    have stack : (interpreter.load program).2.machine.stack = interpreter.machine.stack := by
      rw [same]
    exact .kept stack
  | reset => exact absurd rfl goesOn
  | step random => exact reachable.stackChange_step random
  | passOver => exact .kept rfl
  | tick => exact .kept rfl
  | press key => exact .kept (congrArg Machine.stack (interpreter.machine_setKey key true))
  | release key => exact .kept (congrArg Machine.stack (interpreter.machine_setKey key false))
  | takeFrame =>
    refine .kept ?_
    show interpreter.takeFrame.2.machine.stack = _
    rw [interpreter.takeFrame_cases]

/-- A command leaves the depth of the stack as it is, or executes a call and the stack is one
deeper, or executes a return and it is one less deep. -/
def DepthStep (interpreter : Interpreter) (command : Command) : Prop :=
  (interpreter.apply command).2.machine.stack.depth = interpreter.machine.stack.depth ∨
  (∃ random target, command = .step random ∧
    (interpreter.step random).1 = .ok (.executed (.call target)) ∧
    (interpreter.apply command).2.machine.stack.depth = interpreter.machine.stack.depth + 1) ∨
  (∃ random, command = .step random ∧
    (interpreter.step random).1 = .ok (.executed .ret) ∧
    (interpreter.apply command).2.machine.stack.depth + 1 = interpreter.machine.stack.depth)

/-- The depth changes as the stack does. -/
theorem StackChange.depthStep {command : Command} (change : interpreter.StackChange command) :
    interpreter.DepthStep command := by
  cases change with
  | kept same => exact .inl (by rw [same])
  | called random target steps executed pushed =>
    refine .inr (.inl ⟨random, target, steps, executed, ?_⟩)
    have lengths := congrArg List.length pushed
    simpa using lengths
  | returned random caller steps executed popped goes =>
    refine .inr (.inr ⟨random, steps, executed, ?_⟩)
    have lengths := congrArg List.length popped
    simpa using lengths.symm

/-- Addresses at the bottom of the stack stay there under a command that leaves the stack deeper
than all of them but one. -/
theorem StackChange.prefix_kept {command : Command} (change : interpreter.StackChange command)
    {below : List UInt16} {address : UInt16}
    (held : below ++ [address] <+: interpreter.machine.stack.toList)
    (deeper : (interpreter.apply command).2.machine.stack.depth ≠ below.length) :
    below ++ [address] <+: (interpreter.apply command).2.machine.stack.toList := by
  cases change with
  | kept same =>
    rw [same]
    exact held
  | called random target steps executed pushed =>
    rw [pushed]
    exact held.trans (List.prefix_append _ _)
  | returned random caller steps executed popped goes =>
    rw [popped, List.prefix_concat_iff] at held
    refine held.resolve_left ?_
    intro whole
    have same := (List.append_inj_left' whole rfl)
    rw [same, CallStack.length_toList] at deeper
    exact deeper rfl

/-- They stay there as long as the stack is never just as deep as all of them but one. -/
theorem Reachable.prefix_kept (reachable : interpreter.Reachable) {below : List UInt16}
    {address : UInt16} {commands : List Command} (goesOn : .reset ∉ commands)
    (held : below ++ [address] <+: interpreter.machine.stack.toList)
    (deeper : ∀ count ≤ commands.length,
      (interpreter.applyAll (commands.take count)).machine.stack.depth ≠ below.length) :
    below ++ [address] <+: (interpreter.applyAll commands).machine.stack.toList := by
  induction commands generalizing interpreter with
  | nil => exact held
  | cons command rest ih =>
    rw [List.mem_cons, not_or] at goesOn
    have change := reachable.stackChange (Ne.symm goesOn.1)
    have first : (interpreter.apply command).2.machine.stack.depth ≠ below.length :=
      deeper 1 (by simp)
    apply ih (reachable.apply command) goesOn.2 (change.prefix_kept held first)
    intro count within
    exact deeper (count + 1) (by simpa using within)

/-- The command that leaves the stack as deep as the addresses below the last of the bottom ones is
a return from the call at that address. -/
theorem StackChange.returns {command : Command} (change : interpreter.StackChange command)
    {below : List UInt16} {address : UInt16}
    (held : below ++ [address] <+: interpreter.machine.stack.toList)
    (back : (interpreter.apply command).2.machine.stack.depth = below.length) :
    ∃ random, command = .step random ∧ (interpreter.step random).1 = .ok (.executed .ret) ∧
      (interpreter.apply command).2.machine.pc = address + 2 ∧
      (interpreter.apply command).2.machine.stack.toList = below := by
  have deep := held.length_le
  simp only [List.length_append, List.length_singleton, CallStack.length_toList] at deep
  cases change with
  | kept same =>
    rw [same] at back
    omega
  | called random target steps executed pushed =>
    have lengths := congrArg List.length pushed
    simp only [List.length_append, List.length_singleton, CallStack.length_toList] at lengths
    omega
  | returned random caller steps executed popped goes =>
    rw [popped, List.prefix_concat_iff] at held
    obtain whole | inside := held
    · obtain ⟨same, top⟩ := List.append_inj' whole rfl
      cases top
      exact ⟨random, steps, executed, goes, same.symm⟩
    · have longer := inside.length_le
      simp only [List.length_append, List.length_singleton, CallStack.length_toList] at longer
      omega

/-- A call that finds room is executed, and leaves its own address on top. -/
theorem Reachable.step_call (reachable : interpreter.Reachable) {target : Address}
    (calls : interpreter.machine.instruction = .ok (.call target))
    (room : interpreter.machine.stack.depth < 16) (random : UInt8) :
    (interpreter.step random).1 = .ok (.executed (.call target)) ∧
      (interpreter.step random).2.machine.stack.toList =
        interpreter.machine.stack.toList ++ [interpreter.machine.pc] := by
  cases pushed : interpreter.machine.stack.push? interpreter.machine.pc with
  | none =>
    have full := (CallStack.push?_eq_none_iff _ _).mp pushed
    omega
  | some stack =>
    have performed : interpreter.machine.perform (interpreter.inputs random) (.call target) =
        .ok { interpreter.machine with pc := UInt16.ofNat target, stack } := by
      rw [Machine.perform, pushed]
    rw [reachable.step_of_perform calls (fun _ => Instruction.noConfusion) performed]
    exact ⟨rfl, CallStack.toList_of_push? pushed⟩

/-- Calls and returns are bracketed. A call that finds room is executed and leaves the stack one
deeper. Whatever follows, short of a reset, changes the depth by one at a time, up by a call and
down by a return, and never beyond the sixteen slots; and the first command after which the stack is
as deep as before the call is a step that executes a return, goes to just after the call, and leaves
the addresses that were held before the call. -/
theorem Reachable.call_returns (reachable : interpreter.Reachable) {target : Address}
    (calls : interpreter.machine.instruction = .ok (.call target))
    (room : interpreter.machine.stack.depth < 16) (random : UInt8) :
    (interpreter.step random).1 = .ok (.executed (.call target)) ∧
    (interpreter.step random).2.machine.stack.depth = interpreter.machine.stack.depth + 1 ∧
    ∀ (before : List Command) (last : Command), .reset ∉ before ++ [last] →
      ((interpreter.step random).2.applyAll before).DepthStep last ∧
      ((interpreter.step random).2.applyAll (before ++ [last])).machine.stack.depth ≤ 16 ∧
      ((∀ count ≤ before.length,
          ((interpreter.step random).2.applyAll (before.take count)).machine.stack.depth ≠
            interpreter.machine.stack.depth) →
        ((interpreter.step random).2.applyAll (before ++ [last])).machine.stack.depth =
          interpreter.machine.stack.depth →
        (∃ byte, last = .step byte ∧
          (((interpreter.step random).2.applyAll before).step byte).1 = .ok (.executed .ret)) ∧
        ((interpreter.step random).2.applyAll (before ++ [last])).machine.pc.toNat =
          interpreter.machine.pc.toNat + 2 ∧
        ((interpreter.step random).2.applyAll (before ++ [last])).machine.stack.toList =
          interpreter.machine.stack.toList) := by
  obtain ⟨executed, pushed⟩ := reachable.step_call calls room random
  have depth := congrArg List.length pushed
  simp only [List.length_append, List.length_singleton, CallStack.length_toList] at depth
  refine ⟨executed, depth, ?_⟩
  intro before last goesOn
  simp only [List.mem_append, List.mem_singleton, not_or] at goesOn
  have entered : (interpreter.step random).2.Reachable := reachable.afterStep random
  have change := (entered.applyAll before).stackChange (Ne.symm goesOn.2)
  refine ⟨change.depthStep, CallStack.depth_le _, ?_⟩
  intro deeper back
  rw [applyAll_append] at back ⊢
  rw [← CallStack.length_toList interpreter.machine.stack] at deeper back
  have start : interpreter.machine.stack.toList ++ [interpreter.machine.pc] <+:
      (interpreter.step random).2.machine.stack.toList :=
    ⟨[], (List.append_nil _).trans pushed.symm⟩
  have held := entered.prefix_kept goesOn.1 start deeper
  obtain ⟨byte, steps, returned, goes, same⟩ := change.returns held back
  refine ⟨⟨byte, steps, returned⟩, ?_, same⟩
  have inside := Machine.pc_le_of_instruction calls
  rw [← Machine.toNat_add_two (by omega)]
  exact congrArg UInt16.toNat goes

/-- A subroutine that calls another one before it returns, with its call at the start. -/
def nestedCalls : List UInt8 := [0x22, 0x04, 0x00, 0xE0, 0x22, 0x08, 0x00, 0xEE, 0x00, 0xEE]

/-- The outer call returns at the second of the two returns, whatever the host does meanwhile. -/
theorem call_returns_nested :
    Reachable ((powerOn .standard).load nestedCalls).2 ∧
      (((((powerOn .standard).load nestedCalls).2.step 0).2.applyAll
          [.step 0, .tick, .press 3, .step 0, .takeFrame]).step 0).1 = .ok (.executed .ret) ∧
      ((((powerOn .standard).load nestedCalls).2.step 0).2.applyAll
          ([.step 0, .tick, .press 3, .step 0, .takeFrame] ++ [.step 0])).machine.pc.toNat =
        512 + 2 := by
  have reachable := Reachable.standard.afterLoad nestedCalls
  have calls : ((powerOn .standard).load nestedCalls).2.machine.instruction =
      .ok (.call ⟨0x204, by decide⟩) := instruction_load_powerOn _ (by decide) rfl
  have loaded := load_powerOn .standard nestedCalls (by decide)
  have room : ((powerOn .standard).load nestedCalls).2.machine.stack.depth < 16 := by
    rw [loaded]
    decide
  have start : ((powerOn .standard).load nestedCalls).2.machine.pc.toNat = 512 := by
    rw [loaded]
    rfl
  obtain ⟨-, -, continuation⟩ := Reachable.call_returns reachable calls room 0
  obtain ⟨-, -, returns⟩ := continuation [.step 0, .tick, .press 3, .step 0, .takeFrame] (.step 0)
    (by simp)
  obtain ⟨⟨byte, same, executed⟩, pc, -⟩ := returns (by decide +kernel) (by decide +kernel)
  cases same
  rw [start] at pc
  exact ⟨reachable, executed, pc⟩

end Interpreter

end Chip8
