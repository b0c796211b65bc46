import Chip8.Proofs.Refusal
import Chip8.Proofs.Typing
import Chip8.Proofs.Waiting
import Mathlib.Order.Bounds.Basic

/-!
# Which keys are down

The keys are a map that only the host writes, and for each key the last writer wins: whether it is
down is what the host last asked of it since power-on or the last reset, whatever the program did in
the meantime. The host writes and reads this map by bytes, of which only the first sixteen name a
key. The program reads it in three instructions, two that test the key in a register and one that
waits for any key, and each of them finds what the host would be told at that moment.
-/

namespace Chip8

/-- What the host asked of the key that a byte names: that it be down, or that it be up. -/
def Exchange.asked? (byte : UInt8) (exchange : Exchange) : Option Bool :=
  match exchange.command with
  | .press key => if key = byte then some true else none
  | .release key => if key = byte then some false else none
  | _ => none

/-- What the host asked of the key that a byte names, in order. -/
def demands (byte : UInt8) (exchanges : List Exchange) : List Bool :=
  exchanges.filterMap (Exchange.asked? byte)

/-- One more exchange may add a demand. -/
theorem demands_concat (byte : UInt8) (exchanges : List Exchange) (exchange : Exchange) :
    demands byte (exchanges ++ [exchange]) =
      demands byte exchanges ++ (exchange.asked? byte).toList := by
  rw [demands, List.filterMap_append, List.filterMap_cons]
  cases exchange.asked? byte <;> rfl

/-- A byte above fifteen names no key. -/
theorem Key.ofByte_of_high {byte : UInt8} (high : 15 < byte.toNat) :
    Key.ofByte byte = .error (.invalidKey byte) := by
  rw [ofByte, dif_neg (by omega)]

/-- Any other byte does. -/
theorem Key.ofByte_of_low {byte : UInt8} (low : byte.toNat ≤ 15) :
    Key.ofByte byte = .ok ⟨byte.toNat, Nat.lt_succ_of_le low⟩ := by
  rw [ofByte, dif_pos]

/-- A lower key is named by a lower byte. -/
theorem Key.toByte_le_toByte {lower upper : Key} (ordered : lower ≤ upper) :
    lower.toByte ≤ upper.toByte := by
  have number (key : Key) : key.toByte.toNat = key.val :=
    (ofByte_eq_ok_iff _ key).mp (ofByte_toByte key)
  rw [UInt8.le_iff_toNat_le, number, number]
  exact ordered

namespace Interpreter

variable {interpreter : Interpreter} {byte : UInt8} {x : Register} {random : UInt8}

/-- A byte that names no key is refused, and nothing changes. -/
theorem setKey_of_high (high : 15 < byte.toNat) (isDown : Bool) :
    interpreter.setKey byte isDown = (.error (.invalidKey byte), interpreter) := by
  rw [setKey, Key.ofByte_of_high high]

/-- A byte that names no key is that of no key that is down. -/
theorem isPressed_of_high (high : 15 < byte.toNat) : interpreter.isPressed byte = false := by
  rw [isPressed, Key.ofByte_of_high high]

/-- A byte that names a key is pressed exactly if that key is down. -/
theorem isPressed_of_low (low : byte.toNat ≤ 15) :
    interpreter.isPressed byte = interpreter.keys.isDown ⟨byte.toNat, Nat.lt_succ_of_le low⟩ := by
  rw [isPressed, Key.ofByte_of_low low]

/-- A byte that names a key is not refused, and it decides that key and no other. -/
theorem setKey_of_low (low : byte.toNat ≤ 15) (isDown : Bool) :
    (interpreter.setKey byte isDown).1 = .ok () ∧
      ∀ other, (interpreter.setKey byte isDown).2.isPressed other =
        if other = byte then isDown else interpreter.isPressed other := by
  rw [setKey, Key.ofByte_of_low low]
  refine ⟨rfl, fun other => ?_⟩
  by_cases named : other.toNat ≤ 15
  · rw [isPressed_of_low named, isPressed_of_low named, Keys.isDown_set]
    simp only [Fin.ext_iff, UInt8.toNat_inj]
  · have high : 15 < other.toNat := Nat.lt_of_not_le named
    have apart : other ≠ byte := by
      rintro rfl
      exact named low
    rw [isPressed_of_high high, isPressed_of_high high, if_neg apart]

/-- What the host is told of a key is what it last asked of it. -/
def Heeds (interpreter : Interpreter) (past : List Exchange) : Prop :=
  ∀ byte, interpreter.isPressed byte = true ↔
    byte.toNat ≤ 15 ∧ (demands byte past).getLast? = some true

/-- Nothing was asked at power-on, and no key is down. -/
theorem heeds_powerOn (settings : Settings) : (powerOn settings).Heeds [] := by
  intro byte
  have none : (demands byte []).getLast? = none := rfl
  rw [isPressed_iff, none]
  refine iff_of_false ?_ ?_
  · rintro ⟨key, -, down⟩
    cases (Keys.isDown_released key).symm.trans down
  · rintro ⟨-, asked⟩
    cases asked

/-- A command that asks nothing of any key leaves them heeded. -/
theorem Heeds.of_keyless {past : List Exchange} {command : Command} (heeds : interpreter.Heeds past)
    (keyless : command.setsKey = false) (goesOn : command ≠ .reset) :
    (interpreter.apply command).2.Heeds (past ++ [⟨command, (interpreter.apply command).1⟩]) := by
  intro byte
  have nothing : Exchange.asked? byte ⟨command, (interpreter.apply command).1⟩ = none := by
    cases command with
    | press key => cases keyless
    | release key => cases keyless
    | _ => rfl
  have keys : (interpreter.apply command).2.keys = interpreter.keys := by
    rw [keys_apply _ keyless, if_neg goesOn]
  have same : (interpreter.apply command).2.isPressed byte = interpreter.isPressed byte := by
    rw [isPressed, isPressed, keys]
  rw [demands_concat, nothing, same, Option.toList_none, List.append_nil]
  exact heeds byte

/-- Putting a key down or up is what is last asked of it, and asks nothing of any other. -/
theorem Heeds.setKey {past : List Exchange} (heeds : interpreter.Heeds past) {exchange : Exchange}
    (key : UInt8) (isDown : Bool)
    (asked : ∀ byte, exchange.asked? byte = if key = byte then some isDown else none) :
    (interpreter.setKey key isDown).2.Heeds (past ++ [exchange]) := by
  intro byte
  rw [demands_concat, asked]
  by_cases low : key.toNat ≤ 15
  · rw [(setKey_of_low low isDown).2]
    by_cases same : key = byte
    · subst same
      rw [if_pos rfl, if_pos rfl, Option.toList_some, List.getLast?_concat, Option.some.injEq]
      exact ⟨fun down => ⟨low, down⟩, And.right⟩
    · rw [if_neg (Ne.symm same), if_neg same, Option.toList_none, List.append_nil]
      exact heeds byte
  · rw [setKey_of_high (Nat.lt_of_not_le low)]
    by_cases same : key = byte
    · subst same
      rw [isPressed_of_high (Nat.lt_of_not_le low)]
      exact iff_of_false Bool.false_ne_true fun named => low named.1
    · rw [if_neg same, Option.toList_none, List.append_nil]
      exact heeds byte

/-- Whatever a program and its host do, the keys are as the host last asked. -/
theorem heeds_sinceReset (settings : Settings) (commands : List Command) :
    ((powerOn settings).applyAll commands).Heeds
      (sinceReset ((powerOn settings).transcript commands)) := by
  refine sinceReset_invariant (motive := fun past interpreter => interpreter.Heeds past)
    heeds_powerOn ?_ settings commands
  intro past interpreter command goesOn heeds
  cases command with
  | press key => exact heeds.setKey key true fun byte => rfl
  | release key => exact heeds.setKey key false fun byte => rfl
  | _ => exact heeds.of_keyless rfl goesOn

/-- How a step comes out that tests the key in a register: it faults, and changes nothing, exactly
if the register names no key; else it executes the skip, which passes over the next instruction
exactly if the test holds. -/
structure TestsKey (interpreter : Interpreter) (random : UInt8) (x : Register)
    (condition : Condition) (holds : Bool) : Prop where
  faults : 15 < (interpreter.machine.register x).toNat →
    interpreter.step random = (.error (.invalidKey (interpreter.machine.register x)), interpreter)
  skips : (interpreter.machine.register x).toNat ≤ 15 →
    interpreter.step random = (.ok (.executed (.skip condition)), { interpreter with
      machine.pc :=
        if holds then interpreter.machine.pc + 4 else interpreter.machine.pc + 2 })

/-- A condition that looks at the key in a register is tested by what the host would be told. -/
theorem Reachable.testsKey (reachable : interpreter.Reachable) {condition : Condition}
    (found : interpreter.machine.instruction = .ok (.skip condition)) {holds : Bool}
    (refused : interpreter.machine.refusal? (.skip condition) = interpreter.machine.keyFault? x)
    (tested : (interpreter.machine.register x).toNat ≤ 15 →
      interpreter.machine.test interpreter.keys condition = .ok holds) :
    interpreter.TestsKey random x condition holds := by
  constructor
  · intro high
    have failed : (interpreter.step random).1 =
        .error (.invalidKey (interpreter.machine.register x)) := by
      rw [step_eq_error_iff, Machine.fault?_of_instruction found, refused, Machine.keyFault?,
        if_pos high]
    exact Prod.ext failed (step_left_of_error failed)
  · intro low
    refine reachable.step_of_perform found (by rintro y ⟨⟩) ?_
    have same : (interpreter.inputs random).keys = interpreter.keys := rfl
    rw [Machine.perform, same, tested low]
    rfl

/-- How a step comes out that waits for a key: it takes the least byte that is pressed and goes on,
or it says that the program waits if none is. -/
structure TakesPressed (interpreter : Interpreter) (random : UInt8) (x : Register) : Prop where
  takes : ∀ byte, interpreter.isPressed byte = true →
    ∃ least, IsLeast {byte | interpreter.isPressed byte = true} least ∧
      interpreter.step random = (.ok (.executed (.awaitKey x)), { interpreter with machine :=
        { interpreter.machine.setRegister x least with
          pc := interpreter.machine.pc + 2
          awaiting := none } })
  waits : (∀ byte, interpreter.isPressed byte = false) →
    interpreter.step random =
      (.ok (.awaiting x), { interpreter with machine.awaiting := some x })

/-- A wait for a key takes the least byte that the host would be told is pressed. -/
theorem takesPressed (found : interpreter.machine.instruction = .ok (.awaitKey x)) :
    interpreter.TakesPressed random x := by
  constructor
  · intro byte pressed
    obtain ⟨key, -, down⟩ := (interpreter.isPressed_iff byte).mp pressed
    obtain ⟨lowest, taken, isDown, least⟩ := Keys.exists_lowest? _ down
    refine ⟨lowest.toByte, ⟨?_, ?_⟩, step_of_down found taken random⟩
    · exact (interpreter.isPressed_iff _).mpr ⟨lowest, rfl, isDown⟩
    · intro other named
      obtain ⟨key, rfl, otherDown⟩ := (interpreter.isPressed_iff other).mp named
      exact Key.toByte_le_toByte (least key otherDown)
  · intro up
    refine step_of_up found ((Keys.lowest?_eq_none_iff _).mpr fun key => ?_) random
    have quiet := up key.toByte
    rw [isPressed, Key.ofByte_toByte] at quiet
    exact quiet

/-- The keys are a map that only the host writes, the last writer wins, and the program reads what
the host would be told. However commands follow each other from power-on, a byte is pressed exactly
if it names a key and what the host last asked of it since the last reset was to be down; a byte
that names no key is refused and changes nothing. The two tests of the key in a register skip
exactly if that byte is pressed or exactly if it is not, and fault exactly if it names no key; and a
wait ends exactly if some byte is pressed, with the least of these. -/
theorem pressed_iff_last_asked {settings : Settings} (accepted : settings.check = .ok ())
    (commands : List Command) :
    let current := (powerOn settings).applyAll commands
    (∀ byte, current.isPressed byte = true ↔ byte.toNat ≤ 15 ∧
      (demands byte (sinceReset ((powerOn settings).transcript commands))).getLast? = some true) ∧
    (∀ byte isDown,
      (15 < byte.toNat → current.setKey byte isDown = (.error (.invalidKey byte), current)) ∧
      (byte.toNat ≤ 15 → (current.setKey byte isDown).1 = .ok ())) ∧
    (∀ x random, current.machine.instruction = .ok (.skip (.pressed x)) →
      current.TestsKey random x (.pressed x) (current.isPressed (current.machine.register x))) ∧
    (∀ x random, current.machine.instruction = .ok (.skip (.released x)) →
      current.TestsKey random x (.released x) (!current.isPressed (current.machine.register x))) ∧
    ∀ x random, current.machine.instruction = .ok (.awaitKey x) →
      current.TakesPressed random x := by
  intro current
  have reachable : current.Reachable := (reachable_powerOn accepted).applyAll commands
  refine ⟨heeds_sinceReset settings commands, ?_, ?_, ?_, ?_⟩
  · intro byte isDown
    exact ⟨fun high => setKey_of_high high isDown, fun low => (setKey_of_low low isDown).1⟩
  · intro x random found
    refine reachable.testsKey found rfl fun low => ?_
    rw [Machine.test, Key.ofByte_of_low low, isPressed_of_low low]
    rfl
  · intro x random found
    refine reachable.testsKey found rfl fun low => ?_
    rw [Machine.test, Key.ofByte_of_low low, isPressed_of_low low]
    rfl
  · intro x random found
    exact takesPressed found

/-- A host that presses and lets go of keys around a reset, names one that there is not, and steps
its program through a wait up to a test of the key that the wait has taken. -/
def fumble : List Command :=
  [.press 3, .reset, .load [0xF1, 0x0A, 0xE1, 0x9E], .press 9, .press 7, .press 0x13, .release 7,
    .tick, .press 7, .release 9, .step 0]

/-- The wait has taken the one key that is down, and the test skips. -/
theorem pressed_iff_last_asked_fumble :
    Settings.standard.check = .ok () ∧
      ((powerOn .standard).applyAll fumble).isPressed 7 = true ∧
      ((powerOn .standard).applyAll fumble).isPressed 9 = false ∧
      (((powerOn .standard).applyAll fumble).step 0).1 = .ok (.executed (.skip (.pressed 1))) ∧
      (((powerOn .standard).applyAll fumble).step 0).2.machine.pc = 0x206 := by
  have accepted : Settings.standard.check = .ok () := rfl
  obtain ⟨pressed, -, tests, -⟩ := pressed_iff_last_asked accepted fumble
  have reached : ((powerOn .standard).applyAll fumble).machine.register 1 = 7 ∧
      ((powerOn .standard).applyAll fumble).machine.pc = 0x202 := by
    decide +kernel
  have found : ((powerOn .standard).applyAll fumble).machine.instruction =
      .ok (.skip (.pressed 1)) :=
    (Machine.instruction_eq_ok_iff _ _).mpr (by decide +kernel)
  have seven : ((powerOn .standard).applyAll fumble).isPressed 7 = true :=
    (pressed 7).mpr ⟨by decide, by decide⟩
  have nine : ((powerOn .standard).applyAll fumble).isPressed 9 = false := by
    rw [← Bool.not_eq_true, pressed 9]
    decide
  have skips := (tests 1 0 found).skips (by rw [reached.1]; decide)
  rw [reached.1, seven, reached.2] at skips
  refine ⟨accepted, seven, nine, congrArg Prod.fst skips, ?_⟩
  exact congrArg (fun answer => answer.2.machine.pc) skips

end Interpreter

end Chip8
