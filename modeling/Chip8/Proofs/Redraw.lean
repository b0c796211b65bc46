import Chip8.Proofs.Footprint
import Chip8.Proofs.Reachable
import Chip8.Proofs.Transcript

/-!
# No frame is lost

The host polls for a new frame, and the machine answers with one only if it has noted a change. The
two instructions that write the frame note it, nothing but taking the frame takes the note back, and
then the host has been given the frame as it is. So whenever there is no note, the last frame that
the host was given since power-on is the frame of the machine.
-/

namespace Chip8

/-- An instruction writes the frame. -/
def Instruction.draws : Instruction → Bool
  | .clear => true
  | .draw _ _ _ => true
  | _ => false

/-- Only the instructions that write the frame have to do with the note of its change. -/
theorem Instruction.not_mem_writes_of_draws {instruction : Instruction}
    (plain : instruction.draws = false) :
    .frame ∉ instruction.writes ∧ .redraw ∉ instruction.writes := by
  cases instruction <;> simp [draws, writes] at plain ⊢

namespace Machine

variable {machine next : Machine} {inputs : Inputs} {instruction : Instruction}

/-- An instruction that does not write the frame leaves it as it is. -/
theorem frame_of_perform (performed : machine.perform inputs instruction = .ok next)
    (plain : instruction.draws = false) : next.frame = machine.frame := by
  have untouched := (Instruction.not_mem_writes_of_draws plain).1
  have same : machine.frame = next.frame := perform_untouched performed .frame untouched
  exact same.symm

/-- The frame is yet to be taken after an instruction exactly if it was before, or the instruction
wrote it. -/
theorem redraw_of_perform (performed : machine.perform inputs instruction = .ok next) :
    next.redraw = (machine.redraw || instruction.draws) := by
  cases drawn : instruction.draws with
  | false =>
    have untouched := (Instruction.not_mem_writes_of_draws drawn).2
    have same : machine.redraw = next.redraw := perform_untouched performed .redraw untouched
    rw [Bool.or_false, same]
  | true =>
    rw [Bool.or_true]
    cases instruction with
    | clear =>
      obtain rfl := Except.ok.inj performed
      rfl
    | draw x y height =>
      obtain ⟨sprite, -, rfl⟩ := map_eq_ok_iff.mp performed
      rfl
    | _ => cases drawn

/-- The frames that a host was given show the machine: the last of them is the frame as it is,
unless that is yet to be taken. -/
def ShownBy (machine : Machine) (taken : List Frame) : Prop :=
  machine.redraw = false → taken.getLast? = some machine.frame

/-- A machine whose frame is yet to be taken is shown by any frames, as far as it can be. -/
theorem shownBy_of_redraw {machine : Machine} (yet : machine.redraw = true) (taken : List Frame) :
    machine.ShownBy taken := by
  intro settled
  rw [yet] at settled
  cases settled

/-- What shows a machine shows any other with the same frame and note. -/
theorem ShownBy.congr {machine next : Machine} {taken : List Frame} (shown : machine.ShownBy taken)
    (redraw : next.redraw = machine.redraw) (frame : next.frame = machine.frame) :
    next.ShownBy taken := by
  intro settled
  rw [frame]
  exact shown (redraw ▸ settled)

/-- Performing an instruction keeps a machine shown, because one that writes the frame notes it. -/
theorem ShownBy.perform {taken : List Frame} (shown : machine.ShownBy taken)
    (performed : machine.perform inputs instruction = .ok next) : next.ShownBy taken := by
  have redraw := redraw_of_perform performed
  cases drawn : instruction.draws with
  | false =>
    rw [drawn, Bool.or_false] at redraw
    exact shown.congr redraw (frame_of_perform performed drawn)
  | true =>
    rw [drawn, Bool.or_true] at redraw
    exact shownBy_of_redraw redraw taken

end Machine

namespace Interpreter

/-- A reply that hands out no frame keeps the machine shown by the frames that were handed out. -/
theorem shownBy_of_no_frame {machine : Machine} {taken : List Frame} {exchange : Exchange}
    (none : exchange.frame? = none) (shown : machine.ShownBy taken) :
    machine.ShownBy (taken ++ framesTaken [exchange]) := by
  have same : framesTaken [exchange] = [] := by
    rw [framesTaken, List.filterMap_cons_none none, List.filterMap_nil]
  rw [same, List.append_nil]
  exact shown

/-- The frame is handed out exactly if it is noted as changed. -/
theorem takeFrame_reply (interpreter : Interpreter) :
    interpreter.takeFrame.1 =
      if interpreter.machine.redraw then some interpreter.machine.frame else none := by
  unfold takeFrame
  split <;> rfl

/-- A frame that is handed out is one of those taken. -/
theorem framesTaken_take (taken : Option Frame) :
    framesTaken [⟨.takeFrame, .frame taken⟩] = taken.toList := by
  cases taken <;> rfl

/-- Once the host has asked for the frame, it knows the frame, whether or not it was given one. -/
theorem shownBy_takeFrame {interpreter : Interpreter} {taken : List Frame}
    (shown : interpreter.machine.ShownBy taken) :
    (taken ++ framesTaken [⟨.takeFrame, (interpreter.apply .takeFrame).1⟩]).getLast? =
      some (interpreter.apply .takeFrame).2.machine.frame := by
  have reply : (interpreter.apply .takeFrame).1 = .frame interpreter.takeFrame.1 := rfl
  have left : (interpreter.apply .takeFrame).2.machine.frame = interpreter.machine.frame := by
    show interpreter.takeFrame.2.machine.frame = _
    rw [interpreter.takeFrame_cases]
  rw [reply, left, framesTaken_take, takeFrame_reply]
  cases redraw : interpreter.machine.redraw with
  | false =>
    rw [if_neg Bool.false_ne_true, Option.toList_none, List.append_nil]
    exact shown redraw
  | true =>
    rw [if_pos rfl, Option.toList_some]
    exact List.getLast?_concat

/-- Every command keeps the machine shown by the frames that were handed out. -/
theorem shownBy_apply {interpreter : Interpreter} {taken : List Frame}
    (shown : interpreter.machine.ShownBy taken) (command : Command) :
    (interpreter.apply command).2.machine.ShownBy
      (taken ++ framesTaken [⟨command, (interpreter.apply command).1⟩]) := by
  cases command with
  | load program =>
    obtain ⟨memory, same⟩ := interpreter.machine_load program
    have redraw : (interpreter.load program).2.machine.redraw = interpreter.machine.redraw := by
      rw [same]
    have frame : (interpreter.load program).2.machine.frame = interpreter.machine.frame := by
      rw [same]
    exact shownBy_of_no_frame rfl (shown.congr redraw frame)
  | reset => exact Machine.shownBy_of_redraw rfl _
  | step random =>
    refine shownBy_of_no_frame rfl ?_
    show (interpreter.step random).2.machine.ShownBy taken
    obtain ⟨fault, -, same⟩ | ⟨instruction, next, -, performed, same⟩ :=
      interpreter.step_cases random
    · rw [same]
      exact shown
    · rw [same]
      exact shown.perform performed
  | passOver => exact shownBy_of_no_frame rfl (shown.congr rfl rfl)
  | tick => exact shownBy_of_no_frame rfl (shown.congr rfl rfl)
  | press key =>
    have same := interpreter.machine_setKey key true
    exact shownBy_of_no_frame rfl
      (shown.congr (congrArg Machine.redraw same) (congrArg Machine.frame same))
  | release key =>
    have same := interpreter.machine_setKey key false
    exact shownBy_of_no_frame rfl
      (shown.congr (congrArg Machine.redraw same) (congrArg Machine.frame same))
  | takeFrame =>
    intro _
    exact shownBy_takeFrame shown

/-- Any number of commands keep the machine shown by the frames that were handed out. -/
theorem shownBy_applyAll {interpreter : Interpreter} {taken : List Frame}
    (shown : interpreter.machine.ShownBy taken) (commands : List Command) :
    (interpreter.applyAll commands).machine.ShownBy
      (taken ++ framesTaken (interpreter.transcript commands)) := by
  induction commands generalizing interpreter taken with
  | nil =>
    rw [transcript, framesTaken, List.filterMap_nil, List.append_nil]
    exact shown
  | cons command rest ih =>
    have later := ih (shownBy_apply shown command)
    rw [List.append_assoc, ← framesTaken_append] at later
    exact later

/-- The machine is shown by the frames that were handed out since power-on or the last reset. -/
theorem shownBy_sinceReset (settings : Settings) (commands : List Command) :
    ((powerOn settings).applyAll commands).machine.ShownBy
      (framesTaken (sinceReset ((powerOn settings).transcript commands))) := by
  refine sinceReset_invariant
    (motive := fun past interpreter => interpreter.machine.ShownBy (framesTaken past))
    ?_ ?_ settings commands
  · intro settings
    exact Machine.shownBy_of_redraw rfl _
  · intro past interpreter command _ shown
    rw [framesTaken_append]
    exact shownBy_apply shown command

/-- No change of the frame is lost. Whenever the frame is not noted as changed, the host was given a
frame since power-on or the last reset, and the last one it was given is the frame as it is. So a
host that keeps the last frame it was given has the frame as it is whenever it has polled. -/
theorem frame_eq_last_taken (settings : Settings) (commands : List Command) :
    (((powerOn settings).applyAll commands).machine.redraw = false →
      (framesTaken (sinceReset ((powerOn settings).transcript commands))).getLast? =
        some ((powerOn settings).applyAll commands).machine.frame) ∧
    (commands.getLast? = some .takeFrame →
      (framesTaken ((powerOn settings).transcript commands)).getLast? =
        some ((powerOn settings).applyAll commands).machine.frame) := by
  refine ⟨shownBy_sinceReset settings commands, ?_⟩
  intro polled
  obtain ⟨before, rfl⟩ := List.getLast?_eq_some_iff.mp polled
  have shown : (powerOn settings).machine.ShownBy [] := Machine.shownBy_of_redraw rfl _
  have known := shownBy_takeFrame (shownBy_applyAll shown before)
  rw [List.nil_append] at known
  rw [applyAll_append, transcript_append, framesTaken_append]
  exact known

/-- A host that has a glyph drawn between two polls, and goes on without another. -/
def pollGlyph : List Command :=
  [.load [0xA0, 0x50, 0xD0, 0x05], .takeFrame, .step 0, .step 0, .takeFrame, .tick, .passOver]

/-- The glyph is in the last frame that this host was given. -/
theorem frame_eq_last_taken_glyph :
    ((powerOn .standard).applyAll pollGlyph).machine.redraw = false ∧
      ((powerOn .standard).applyAll pollGlyph).machine.frame.lit 0 0 = true ∧
      (framesTaken (sinceReset ((powerOn .standard).transcript pollGlyph))).getLast? =
        some ((powerOn .standard).applyAll pollGlyph).machine.frame := by
  have settled : ((powerOn .standard).applyAll pollGlyph).machine.redraw = false := by
    decide +kernel
  have lit : ((powerOn .standard).applyAll pollGlyph).machine.frame.lit 0 0 = true := by
    decide +kernel
  exact ⟨settled, lit, (frame_eq_last_taken .standard pollGlyph).1 settled⟩

end Interpreter

end Chip8
