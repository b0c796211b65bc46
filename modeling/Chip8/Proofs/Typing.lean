import Chip8.Proofs.Session.Performed

/-!
# What typing does to the keys

A keyboard is wired to an interpreter when nothing but its updates puts keys down and lets go of
them. Lines come in whenever they are typed, and the host gives its other commands whenever it
likes, a reset among them, of which the keyboard hears nothing. `Keyboard.Covers` holds the two
together: a key that is down is one of those that the last update put down. The next update lets go
of all of these, so what is down after it are the keys that were typed since, and no others.
-/

namespace Chip8

/-- Whether a command puts a key down or lets go of one. -/
def Command.setsKey : Command → Bool
  | .press _ => true
  | .release _ => true
  | _ => false

namespace Interpreter

variable (interpreter : Interpreter)

/-- Of the commands that set no key only a reset touches the keys, and it lets go of them all. -/
theorem keys_apply {command : Command} (keyless : command.setsKey = false) :
    (interpreter.apply command).2.keys =
      if command = .reset then .released else interpreter.keys := by
  cases command with
  | load program =>
    show (interpreter.load program).2.keys = interpreter.keys
    obtain ⟨fault, same⟩ | ⟨-, -, same⟩ := interpreter.load_cases program <;> rw [same]
  | step random =>
    show (interpreter.step random).2.keys = interpreter.keys
    obtain ⟨fault, -, same⟩ | ⟨instruction, next, -, -, same⟩ := interpreter.step_cases random <;>
      rw [same]
  | takeFrame =>
    show interpreter.takeFrame.2.keys = interpreter.keys
    rw [takeFrame_cases]
  | press key => cases keyless
  | release key => cases keyless
  | _ => rfl

/-- A byte is that of a key that is down, or no key that it names is. -/
theorem isPressed_iff (byte : UInt8) :
    interpreter.isPressed byte = true ↔
      ∃ key : Key, byte = key.toByte ∧ interpreter.keys.isDown key = true := by
  constructor
  · intro pressed
    cases named : Key.ofByte byte with
    | error fault =>
      rw [isPressed, named] at pressed
      cases pressed
    | ok key =>
      rw [isPressed, named] at pressed
      have number := (Key.ofByte_eq_ok_iff byte key).mp named
      exact ⟨key, by simp [Key.toByte, ← number], pressed⟩
  · rintro ⟨key, rfl, down⟩
    rw [isPressed, Key.ofByte_toByte]
    exact down

/-- Keys that are named by their bytes are never refused. -/
theorem replies_ofKey (isDown : Bool) (keys : List Key) :
    ∀ exchange ∈ interpreter.transcript (keys.map (.ofKey isDown)),
      exchange.reply = .keySet (.ok ()) := by
  induction keys generalizing interpreter with
  | nil =>
    intro exchange member
    cases member
  | cons key rest ih =>
    intro exchange member
    rw [List.map_cons, transcript, List.mem_cons] at member
    obtain rfl | later := member
    · show (interpreter.apply (.ofKey isDown key)).1 = _
      rw [apply_ofKey]
    · exact ih _ exchange later

end Interpreter

namespace Keyboard

/-- The keys that a line taps: its hexadecimal digits, in order. -/
def digits (line : String) : List Key := line.toList.filterMap Text.hexValue?

/-- A line taps a key exactly if the digit of that key is in it, in either case. -/
theorem mem_digits_iff (line : String) (key : Key) :
    key ∈ digits line ↔
      ∃ char ∈ line.toList, char = Text.hexDigit key ∨ char = (Text.hexDigit key).toLower := by
  simp only [digits, List.mem_filterMap, Text.hexValue?_eq_some_iff]

/-- A character asks for the key whose digit it is, and for no key if it is no digit. -/
theorem ofChar?_bind_key? (char : Char) :
    (Typed.ofChar? char).bind Typed.key? = Text.hexValue? char := by
  unfold Typed.ofChar?
  cases value : Text.hexValue? char with
  | none => split <;> rfl
  | some key =>
    have visible : Text.isBlank char = false := by
      obtain rfl | rfl := (Text.hexValue?_eq_some_iff char key).mp value
      · revert key
        decide
      · revert key
        decide
    rw [visible]
    rfl

/-- The keys that the next update puts down are the digits of the lines that it finds. -/
theorem taps_eq (keyboard : Keyboard) : keyboard.taps = keyboard.lines.flatMap digits := by
  have line (line : String) : (Typed.ofLine line).filterMap Typed.key? = digits line := by
    rw [Typed.ofLine, List.filterMap_filterMap]
    exact congrArg (line.toList.filterMap ·) (funext ofChar?_bind_key?)
  rw [taps, typed, List.filterMap_flatMap]
  exact congrArg (keyboard.lines.flatMap ·) (funext line)

/-- Lines that come in one after the other wait after those before. -/
theorem foldl_type (keyboard : Keyboard) (lines : List String) :
    lines.foldl type keyboard = { keyboard with lines := keyboard.lines ++ lines } := by
  induction lines generalizing keyboard with
  | nil => rw [List.append_nil, List.foldl_nil]
  | cons line rest ih =>
    rw [List.foldl_cons, ih, type, List.append_assoc]
    rfl

/-- An update presses and releases only keys, and so is never refused. -/
theorem replies_commands (keyboard : Keyboard) (interpreter : Interpreter) :
    ∀ exchange ∈ interpreter.transcript keyboard.commands,
      exchange.reply = .keySet (.ok ()) := by
  intro exchange member
  rw [commands, Interpreter.transcript_append, List.mem_append] at member
  obtain release | press := member
  · exact interpreter.replies_ofKey false _ exchange release
  · exact Interpreter.replies_ofKey _ true _ exchange press

/-- The keys that are down are among those that the last update put down. -/
def Covers (keyboard : Keyboard) (keys : Keys) : Prop :=
  ∀ key, keys.isDown key = true → key ∈ keyboard.held

namespace Covers

variable {keyboard : Keyboard} {interpreter : Interpreter}

/-- An update leaves down the keys that it puts down and no others. -/
theorem isDown_update (covers : keyboard.Covers interpreter.keys) (key : Key) :
    (keyboard.update interpreter).2.keys.isDown key = true ↔ key ∈ keyboard.taps := by
  show (setAll (setAll interpreter.keys keyboard.held false) keyboard.taps true).isDown key = true
    ↔ _
  by_cases tapped : key ∈ keyboard.taps
  · rw [isDown_setAll_of_mem _ _ _ _ tapped]
    exact iff_of_true rfl tapped
  · rw [isDown_setAll_of_not_mem _ _ _ _ tapped]
    refine iff_of_false ?_ tapped
    by_cases held : key ∈ keyboard.held
    · rw [isDown_setAll_of_mem _ _ _ _ held]
      exact Bool.false_ne_true
    · rw [isDown_setAll_of_not_mem _ _ _ _ held]
      exact fun down => held (covers key down)

/-- The keys that are down after an update are among those that it put down. -/
theorem update (covers : keyboard.Covers interpreter.keys) :
    (keyboard.update interpreter).1.Covers (keyboard.update interpreter).2.keys :=
  fun key down => (covers.isDown_update key).mp down

/-- A command that sets no key puts none down. -/
theorem apply (covers : keyboard.Covers interpreter.keys) {command : Command}
    (keyless : command.setsKey = false) :
    keyboard.Covers (interpreter.apply command).2.keys := by
  intro key down
  rw [interpreter.keys_apply keyless] at down
  split at down
  case isTrue =>
    rw [Keys.isDown_released] at down
    cases down
  case isFalse => exact covers key down

end Covers

end Keyboard

/-- What may happen to a keyboard and the interpreter that it is wired to. -/
inductive Act
  /-- A line comes in. -/
  | type (line : String)
  /-- The keyboard lets go of the keys that it holds and puts down those typed since. -/
  | update
  /-- The host gives a command that sets no key. -/
  | give (command : Command) (keyless : command.setsKey = false)

namespace Act

/-- The line that comes in. -/
def line? : Act → Option String
  | .type line => some line
  | _ => none

/-- Whether the keyboard updates the keys. -/
def updates : Act → Bool
  | .update => true
  | _ => false

/-- Whether the host resets the interpreter. -/
def resets : Act → Bool
  | .give .reset _ => true
  | _ => false

/-- The lines that come in, in order. -/
def arrivals (acts : List Act) : List String := acts.filterMap line?

/-- What has happened since the last update, which is everything if there was none. -/
def sinceUpdate (acts : List Act) : List Act := acts.rtakeWhile fun act => !act.updates

end Act

/-- A keyboard and the interpreter that it is wired to. -/
structure Console where
  /-- What was typed, and the keys that are held. -/
  keyboard : Keyboard
  /-- The interpreter whose keys these are. -/
  interpreter : Interpreter

namespace Console

/-- A keyboard that was never used and an interpreter at power-on. -/
def fresh (settings : Settings) : Console := ⟨.idle, .powerOn settings⟩

/-- What an act leaves. -/
def act (console : Console) : Act → Console
  | .type line => { console with keyboard := console.keyboard.type line }
  | .update =>
    let (keyboard, interpreter) := console.keyboard.update console.interpreter
    { keyboard, interpreter }
  | .give command _ => { console with interpreter := (console.interpreter.apply command).2 }

/-- What a list of acts leaves. -/
def after (console : Console) (acts : List Act) : Console := acts.foldl act console

/-- The keys that each update puts down, as often as they were typed. -/
def helds : Console → List Act → List (List Key)
  | _, [] => []
  | console, act :: rest =>
    if act.updates then (console.act act).keyboard.held :: (console.act act).helds rest
    else (console.act act).helds rest

/-- Acts after acts are one list of acts. -/
theorem after_append (console : Console) (first second : List Act) :
    console.after (first ++ second) = (console.after first).after second :=
  List.foldl_append

/-- No act leaves a key down that the last update did not put down. -/
theorem covers_act {console : Console} (covers : console.keyboard.Covers console.interpreter.keys)
    (act : Act) : (console.act act).keyboard.Covers (console.act act).interpreter.keys := by
  cases act with
  | type line => exact covers
  | update => exact covers.update
  | give command keyless => exact covers.apply keyless

/-- However it is used, no key is down that the last update did not put down. -/
theorem covers_after (settings : Settings) (acts : List Act) :
    ((fresh settings).after acts).keyboard.Covers
      ((fresh settings).after acts).interpreter.keys := by
  induction acts using List.reverseRecOn with
  | nil =>
    intro key down
    have up : Keys.released.isDown key = false := Keys.isDown_released key
    exact absurd (up.symm.trans down) Bool.false_ne_true
  | append_singleton before act ih =>
    rw [after_append]
    exact covers_act ih act

/-- The lines that no update has looked at are those that came in since the last one. -/
theorem lines_after (settings : Settings) (acts : List Act) :
    ((fresh settings).after acts).keyboard.lines = Act.arrivals (Act.sinceUpdate acts) := by
  induction acts using List.reverseRecOn with
  | nil => rfl
  | append_singleton before act ih =>
    rw [after_append]
    cases act with
    | type line =>
      rw [Act.sinceUpdate, List.rtakeWhile_concat_pos _ _ _ rfl, Act.arrivals,
        List.filterMap_append]
      exact congrArg (· ++ [line]) ih
    | update =>
      rw [Act.sinceUpdate, List.rtakeWhile_concat_neg _ _ _ (by decide)]
      rfl
    | give command keyless =>
      rw [Act.sinceUpdate, List.rtakeWhile_concat_pos _ _ _ rfl, Act.arrivals,
        List.filterMap_append]
      exact ih.trans (List.append_nil _).symm

/-- What was typed before some acts and what comes in during them is put down by their updates or
still there after them, in order. -/
theorem flatten_helds (console : Console) (acts : List Act) :
    (console.helds acts).flatten ++ (console.after acts).keyboard.taps =
      console.keyboard.taps ++ (Act.arrivals acts).flatMap Keyboard.digits := by
  induction acts generalizing console with
  | nil => exact (List.append_nil _).symm
  | cons act rest ih =>
    have later := ih (console.act act)
    cases act with
    | type line =>
      have typed : (console.act (.type line)).keyboard.taps =
          console.keyboard.taps ++ Keyboard.digits line := by
        rw [Keyboard.taps_eq, Keyboard.taps_eq]
        exact (List.flatMap_append).trans (by simp)
      rw [typed, List.append_assoc] at later
      exact later
    | update =>
      show (console.keyboard.taps ++ ((console.act .update).helds rest).flatten) ++ _ = _
      rw [List.append_assoc]
      exact congrArg (console.keyboard.taps ++ ·) later
    | give command keyless => exact later

/-- Until the next update the keys are as the last act left them, unless there is a reset. -/
theorem isDown_after (console : Console) (acts : List Act)
    (idle : ∀ act ∈ acts, act.updates = false) (key : Key) :
    (console.after acts).interpreter.keys.isDown key =
      (!acts.any Act.resets && console.interpreter.keys.isDown key) := by
  induction acts generalizing console with
  | nil => rfl
  | cons act rest ih =>
    have later := ih (console.act act) fun other member =>
      idle other (List.mem_cons_of_mem _ member)
    show ((console.act act).after rest).interpreter.keys.isDown key = _
    rw [later, List.any_cons]
    cases act with
    | type line => rfl
    | update => cases idle .update (List.mem_cons_self ..)
    | give command keyless =>
      show (_ && (console.interpreter.apply command).2.keys.isDown key) = _
      rw [console.interpreter.keys_apply keyless]
      by_cases reset : command = .reset
      · subst reset
        simp [Act.resets]
      · have quiet : (Act.give command keyless).resets = false := by
          cases command with
          | reset => exact absurd rfl reset
          | _ => rfl
        rw [if_neg reset, quiet, Bool.false_or]

/-- A keyboard loses no key, puts none down twice over and leaves none down, however lines, updates
and the commands of the host follow each other. No update is refused a key. Down after it are the
keys whose digits came in since the update before, which stay as they are until the next one unless
a reset lets go of them all. And the keys that the updates put down are the digits of all lines that
have come in, in order, up to those that wait for the next update. -/
theorem typed_keys (settings : Settings) (acts : List Act) :
    let console := (fresh settings).after acts
    let updated := console.act .update
    ((∀ exchange ∈ console.interpreter.transcript console.keyboard.commands,
        exchange.reply = .keySet (.ok ())) ∧
      updated.interpreter = console.interpreter.applyAll console.keyboard.commands) ∧
    (∀ byte, updated.interpreter.isPressed byte = true ↔
      ∃ key : Key, byte = key.toByte ∧ ∃ line ∈ Act.arrivals (Act.sinceUpdate acts),
        ∃ char ∈ line.toList, char = Text.hexDigit key ∨ char = (Text.hexDigit key).toLower) ∧
    (∀ later : List Act, (∀ act ∈ later, act.updates = false) → ∀ byte,
      (updated.after later).interpreter.isPressed byte =
        (!later.any Act.resets && updated.interpreter.isPressed byte)) ∧
    ((fresh settings).helds acts).flatten ++
        (Act.arrivals (Act.sinceUpdate acts)).flatMap Keyboard.digits =
      (Act.arrivals acts).flatMap Keyboard.digits ∧
    ((fresh settings).helds (acts ++ [.update])).flatten =
      (Act.arrivals acts).flatMap Keyboard.digits := by
  intro console updated
  have covers : console.keyboard.Covers console.interpreter.keys := covers_after settings acts
  have lines : console.keyboard.lines = Act.arrivals (Act.sinceUpdate acts) :=
    lines_after settings acts
  have taps : console.keyboard.taps =
      (Act.arrivals (Act.sinceUpdate acts)).flatMap Keyboard.digits := by
    rw [Keyboard.taps_eq, lines]
  refine ⟨⟨?_, ?_⟩, ?_, ?_, ?_, ?_⟩
  · exact console.keyboard.replies_commands console.interpreter
  · exact (console.keyboard.applyAll_commands console.interpreter).symm
  · intro byte
    rw [updated.interpreter.isPressed_iff]
    refine exists_congr fun key => and_congr_right fun _ => ?_
    have down : updated.interpreter.keys.isDown key = true ↔ key ∈ console.keyboard.taps :=
      covers.isDown_update key
    simp only [down, taps, List.mem_flatMap, Keyboard.mem_digits_iff]
  · intro later idle byte
    rw [Bool.eq_iff_iff, Bool.and_eq_true, Interpreter.isPressed_iff, Interpreter.isPressed_iff]
    simp only [updated.isDown_after later idle, Bool.and_eq_true]
    exact ⟨fun ⟨key, named, kept, down⟩ => ⟨kept, key, named, down⟩,
      fun ⟨kept, key, named, down⟩ => ⟨key, named, kept, down⟩⟩
  · rw [← taps]
    exact (fresh settings).flatten_helds acts
  · have all := (fresh settings).flatten_helds (acts ++ [.update])
    have none : ((fresh settings).after (acts ++ [.update])).keyboard.taps = [] := by
      rw [after_append]
      rfl
    rw [none, List.append_nil, Act.arrivals, List.filterMap_append] at all
    exact all.trans (congrArg (List.flatMap Keyboard.digits) (List.append_nil _))

/-- Keys that are typed twice on one line, and again after a reset that lets go of them. -/
def typedAgain : List Act := [.type "3c3", .update, .give .reset rfl, .type "C 3!"]

/-- Each is put down as often as it was typed. The key of the letter is down after the update, and
no longer once a tick and another reset have followed. -/
theorem typed_keys_again :
    let updated := ((fresh .standard).after typedAgain).act .update
    ((fresh .standard).helds (typedAgain ++ [.update])).flatten = [3, 12, 3, 12, 3] ∧
      updated.interpreter.isPressed 12 = true ∧
      (updated.after [.give .tick rfl, .give .reset rfl]).interpreter.isPressed 12 = false := by
  intro updated
  obtain ⟨-, down, stays, -, all⟩ := typed_keys .standard typedAgain
  have digits : (Act.arrivals typedAgain).flatMap Keyboard.digits = [3, 12, 3, 12, 3] := by decide
  have idle : ∀ act ∈ [Act.give .tick rfl, .give .reset rfl], act.updates = false := by
    simp [Act.updates]
  refine ⟨all.trans digits, ?_, stays _ idle 12⟩
  exact (down 12).mpr ⟨12, rfl, "C 3!", by decide, 'C', by decide, .inl rfl⟩

end Console

end Chip8
