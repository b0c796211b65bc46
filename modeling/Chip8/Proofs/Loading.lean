import Chip8.Proofs.Transcript
import Chip8.Proofs.Unloaded

/-!
# Loading

A load writes the program into memory and clears nothing, so what it leaves depends on the memory
that it finds. That is always the memory at power-on: an interpreter takes one program between two
resets, and until then nothing it runs writes to memory. What is loaded is therefore the glyphs and
the program alone, and the answer to a load depends on nothing but whether a program was loaded
since the last reset and how long the new one is.
-/

namespace Chip8

namespace Memory

/-- Memory holds the glyphs in their place, a program from its start on, and zero elsewhere. -/
structure HoldsOnly (memory : Memory) (program : List UInt8) : Prop where
  glyphs : ∀ place < 80, memory.bytes[80 + place]? = font[place]?
  loaded : ∀ place < program.length, memory.bytes[512 + place]? = program[place]?
  elsewhere : ∀ address < 4096,
    address < 80 ∨ 160 ≤ address ∧ address < 512 ∨ 512 + program.length ≤ address →
      memory.bytes[address]? = some 0

/-- Memory at power-on is zero beside the glyphs. -/
theorem getElem_initial_of_apart (address : Nat) (inside : address < 4096)
    (apart : address < 80 ∨ 160 ≤ address) : initial.bytes[address] = 0 := by
  rw [getElem_initial]
  split
  case isTrue above =>
    have rows : font.length = 80 := rfl
    rw [List.getElem?_eq_none (by omega)]
    rfl
  case isFalse => rfl

/-- A program that fits, written over memory at power-on, leaves the glyphs and itself alone. -/
theorem holdsOnly_overwrite {program : List UInt8} (small : program.length ≤ 3584) :
    HoldsOnly ⟨overwrite 512 program initial.bytes⟩ program := by
  have rows : font.length = 80 := rfl
  constructor
  case glyphs =>
    intro place low
    rw [Vector.getElem?_eq_getElem (by omega), getElem_overwrite, if_neg (by omega),
      getElem_initial, if_pos (by omega), Nat.add_sub_cancel_left,
      List.getElem?_eq_getElem (by omega)]
    rfl
  case loaded =>
    intro place low
    rw [Vector.getElem?_eq_getElem (by omega), getElem_overwrite, if_pos (by omega),
      Nat.add_sub_cancel_left, List.getElem?_eq_getElem low]
    rfl
  case elsewhere =>
    intro address inside apart
    have zero := getElem_initial_of_apart address inside (by omega)
    rw [Vector.getElem?_eq_getElem inside, getElem_overwrite, zero]
    split
    case isTrue above =>
      rw [List.getElem?_eq_none (by omega)]
      rfl
    case isFalse => rfl

/-- Memory at power-on holds the glyphs alone. -/
theorem holdsOnly_initial : initial.HoldsOnly [] := by
  have small : ([] : List UInt8).length ≤ 3584 := Nat.zero_le _
  have written := holdsOnly_overwrite small
  rw [overwrite] at written
  exact written

end Memory

/-- A program was loaded in the course of some exchanges. -/
def LoadedIn (exchanges : List Exchange) : Prop :=
  ∃ exchange ∈ exchanges, exchange.reply = .loaded (.ok ())

namespace Interpreter

/-- A program is there after a command exactly if it was before or the command loads it, unless the
command is a reset. -/
theorem loaded_apply (interpreter : Interpreter) {command : Command} (goesOn : command ≠ .reset) :
    (interpreter.apply command).2.loaded = true ↔
      interpreter.loaded = true ∨ (interpreter.apply command).1 = .loaded (.ok ()) := by
  cases command with
  | load program =>
    show (interpreter.load program).2.loaded = true ↔
      interpreter.loaded = true ∨ Reply.loaded (interpreter.load program).1 = .loaded (.ok ())
    obtain ⟨fault, same⟩ | ⟨empty, -, same⟩ := interpreter.load_cases program
    · simp [same]
    · simp [same]
  | reset => exact absurd rfl goesOn
  | step random =>
    show (interpreter.step random).2.loaded = true ↔
      interpreter.loaded = true ∨ Reply.stepped (interpreter.step random).1 = .loaded (.ok ())
    obtain ⟨fault, -, same⟩ | ⟨instruction, next, -, -, same⟩ := interpreter.step_cases random
    · simp [same]
    · simp [same]
  | press key =>
    show (interpreter.setKey key true).2.loaded = true ↔
      interpreter.loaded = true ∨ Reply.keySet (interpreter.setKey key true).1 = .loaded (.ok ())
    obtain ⟨keys, same⟩ := interpreter.setKey_cases key true
    simp [same]
  | release key =>
    show (interpreter.setKey key false).2.loaded = true ↔
      interpreter.loaded = true ∨ Reply.keySet (interpreter.setKey key false).1 = .loaded (.ok ())
    obtain ⟨keys, same⟩ := interpreter.setKey_cases key false
    simp [same]
  | takeFrame =>
    show interpreter.takeFrame.2.loaded = true ↔
      interpreter.loaded = true ∨ Reply.frame interpreter.takeFrame.1 = .loaded (.ok ())
    rw [interpreter.takeFrame_cases]
    simp
  | passOver => simp [apply, passOver]
  | tick => simp [apply, tick, Prod.map]

/-- A program is there exactly if one was loaded since the last reset. -/
theorem loaded_iff (settings : Settings) (commands : List Command) :
    ((powerOn settings).applyAll commands).loaded = true ↔
      LoadedIn (sinceReset ((powerOn settings).transcript commands)) := by
  refine sinceReset_invariant
    (motive := fun past interpreter => interpreter.loaded = true ↔ LoadedIn past)
    ?_ ?_ settings commands
  · intro settings
    simp [LoadedIn, powerOn]
  · intro past interpreter command goesOn ih
    rw [interpreter.loaded_apply goesOn, ih]
    simp [LoadedIn, or_and_right, exists_or]

/-- How a load is answered, and what it leaves, when some exchanges have passed since the last
reset. -/
structure Takes (interpreter : Interpreter) (past : List Exchange) (program : List UInt8) :
    Prop where
  repeated : (interpreter.load program).1 = .error .alreadyLoaded ↔ LoadedIn past
  large : ∀ size limit, (interpreter.load program).1 = .error (.tooLarge size limit) ↔
    ¬ LoadedIn past ∧ 3584 < program.length ∧ size = program.length ∧ limit = 3584
  taken : (interpreter.load program).1 = .ok () ↔ ¬ LoadedIn past ∧ program.length ≤ 3584
  memory : (interpreter.load program).1 = .ok () →
    ∃ memory : Memory, memory.HoldsOnly program ∧
      (interpreter.load program).2 = { interpreter with machine.memory := memory, loaded := true }
  kept : ∀ fault, (interpreter.load program).1 = .error fault →
    (interpreter.load program).2 = interpreter

/-- A load is answered so whenever a program is there exactly if one was loaded, and memory is as at
power-on if none is. -/
theorem takes_of_loaded_iff {interpreter : Interpreter} {past : List Exchange}
    (loaded : interpreter.loaded = true ↔ LoadedIn past)
    (pristine : interpreter.loaded = false → interpreter.machine.memory = .initial)
    (program : List UInt8) : interpreter.Takes past program := by
  cases there : interpreter.loaded with
  | true =>
    have answer := load_of_loaded there program
    have found : LoadedIn past := loaded.mp there
    constructor <;> simp [answer, found]
  | false =>
    have none : ¬ LoadedIn past := by
      rw [← loaded, there]
      exact Bool.false_ne_true
    by_cases large : 3584 < program.length
    · have answer := load_of_large there large
      constructor <;> simp [answer, none, large, eq_comm]
    · have small : program.length ≤ 3584 := Nat.le_of_not_lt large
      have answer := load_of_small there small
      constructor
      case large =>
        intro size limit
        rw [answer]
        exact ⟨fun refused => (by cases refused), fun found => absurd found.2.1 large⟩
      case memory =>
        intro _
        rw [answer, pristine there]
        exact ⟨_, Memory.holdsOnly_overwrite small, rfl⟩
      all_goals simp [answer, none, small]

/-- Loading always starts from memory as it is at power-on. As long as no program was loaded since
the last reset, memory holds the glyphs and zero everywhere else, whatever the host did before. A
load is therefore refused exactly if a program was loaded since then, or else if the program is too
large; otherwise memory holds the glyphs and the program alone, and all beside it is as it was. A
load that is refused changes nothing at all. -/
theorem load_pristine {settings : Settings} (accepted : settings.check = .ok ())
    (commands : List Command) :
    (¬ LoadedIn (sinceReset ((powerOn settings).transcript commands)) →
      ((powerOn settings).applyAll commands).machine.memory = .initial ∧
        Memory.initial.HoldsOnly []) ∧
    ∀ program, ((powerOn settings).applyAll commands).Takes
      (sinceReset ((powerOn settings).transcript commands)) program := by
  have created : create settings = .ok (powerOn settings) :=
    (create_eq_ok_iff _ _).mpr ⟨accepted, rfl⟩
  have reachable := (Reachable.create created).applyAll commands
  have loaded := loaded_iff settings commands
  constructor
  · intro none
    rw [← loaded, Bool.not_eq_true] at none
    exact ⟨(reachable.unloaded none).1, Memory.holdsOnly_initial⟩
  · intro program
    exact takes_of_loaded_iff loaded (fun none => (reachable.unloaded none).1) program

/-- A program that would write to memory is loaded and then given up, and others are run in vain. -/
def reloaded : List Command :=
  [.load [0xF0, 0x33], .step 0, .load [0x00, 0xE0], .reset, .step 0, .passOver, .step 0]

/-- The next program finds memory as it is at power-on. -/
theorem load_pristine_reloaded :
    Settings.standard.check = .ok () ∧
      ∃ memory : Memory, memory.HoldsOnly [0x12, 0x00] ∧
        (((powerOn .standard).applyAll reloaded).load [0x12, 0x00]).2 =
          { (powerOn .standard).applyAll reloaded with
            machine.memory := memory, loaded := true } := by
  have accepted : Settings.standard.check = .ok () := rfl
  obtain ⟨-, takes⟩ := load_pristine accepted reloaded
  have none : ¬ LoadedIn (sinceReset ((powerOn .standard).transcript reloaded)) := by
    rw [← loaded_iff]
    decide +kernel
  refine ⟨accepted, (takes [0x12, 0x00]).memory ?_⟩
  exact (takes [0x12, 0x00]).taken.mpr ⟨none, by decide⟩

end Interpreter

end Chip8
