import Chip8.Proofs.CommandLine.Gathering
import Chip8.Proofs.Reachable
import Chip8.Session
import Mathlib.Data.List.Perm.Basic

/-!
# Options and the command lines that ask for them

Options are written as a command line in pieces, one for the program and one for each option, which
may stand in any order. Such a command line is read as the options it was written from. Whatever
other command lines are read as options too, an interpreter can run under them.
-/

namespace Chip8

/-- The pieces in which an option and its number are written, as two arguments or as one. Without a
number there is no piece. -/
def Amount.Pieces (amount : Amount) (number? : Option Nat) (pieces : List (List String)) : Prop :=
  match number? with
  | none => pieces = []
  | some number =>
    pieces = [[CommandLine.long amount.name none, toString number]] ∨
      pieces = [[CommandLine.long amount.name (some (toString number))]]

/-- The pieces in which options are written, in any order. The rate in use when none is given need
not be. -/
def Options.Pieces (options : Options) (pieces : List (List String)) : Prop :=
  ∃ rate? hz cycles, (rate? = some options.hz.toNat ∨ rate? = none ∧ options.hz = 500) ∧
    Amount.hz.Pieces rate? hz ∧
    Amount.cycles.Pieces (options.cycles.map fun limit => limit.toNat) cycles ∧
    pieces.Perm ([options.program] :: (hz ++ cycles ++ if options.wrap then [["--wrap"]] else []))

namespace CommandLine

/-- What holds of the options that a command line is read as. -/
structure Usable (arguments : List String) (options : Options) : Prop where
  /-- The program has a name. -/
  program_ne : options.program ≠ ""
  /-- The rate is positive. -/
  hz_ne : options.hz ≠ 0
  /-- No option is given twice. -/
  once : (front arguments).Pairwise fun first second =>
    ∀ choice : Choice, choice.IsGivenBy first → ¬choice.IsGivenBy second
  /-- The machine has the rate of the options. -/
  cpuRate : options.settings.cpuRate = options.hz
  /-- The timers have the usual rate. -/
  timerRate : options.settings.timerRate = 60
  /-- Sprites wrap when this is asked for. -/
  edge : options.settings.edge = .wrap ↔ "--wrap" ∈ front arguments
  /-- The settings are accepted. -/
  accepted : options.settings.check = .ok ()
  /-- There is an interpreter with the settings. -/
  created : Interpreter.create options.settings = .ok (.powerOn options.settings)
  /-- No session is refused for the settings. -/
  starts : ∀ name program limit fault,
    Session.start options.settings name program limit ≠ .error (.settings fault)

/-! ## Reading what was written -/

/-- What does not begin with a dash does not look like an option. -/
theorem shape_of_head? {argument : String} (plain : argument.toList.head? ≠ some '-') :
    shape argument = .plain := by
  unfold shape
  split
  case h_1 dashes => exact absurd (congrArg List.head? dashes) plain
  case h_2 dashes => exact absurd (congrArg List.head? dashes) plain
  case h_3 dash => exact absurd (congrArg List.head? dash) plain
  case h_4 => rfl

/-- A written number does not look like an option. -/
theorem shape_toString (number : Nat) : shape (toString number) = .plain := by
  obtain ⟨digit, rest, same, isDigit⟩ := Text.exists_toList_toString number
  refine shape_of_head? ?_
  rw [same]
  rintro ⟨⟩
  cases isDigit

/-- Pieces that are the arguments of items by which one draft becomes another. None of the items
names the program. -/
def Conveys (pieces : List (List String)) (draft next : Draft) : Prop :=
  ∃ items : List Item, pieces = items.map Item.arguments ∧ (∀ item ∈ items, item.Readable) ∧
    items.countP Item.isProgram = 0 ∧ Gathers draft items next

namespace Conveys

variable {pieces others : List (List String)} {draft middle next : Draft}

/-- Without pieces a draft stays as it is. -/
theorem nil (draft : Draft) : Conveys [] draft draft :=
  ⟨[], rfl, List.forall_mem_nil _, rfl, .nil draft⟩

/-- The arguments of one item. -/
theorem singleton {item : Item} (readable : item.Readable) (option : item.isProgram = false)
    (takes : draft.Takes item next) : Conveys [item.arguments] draft next := by
  refine ⟨[item], rfl, List.forall_mem_singleton.mpr readable, ?_, .cons takes (.nil next)⟩
  rw [List.countP_singleton, option]
  rfl

/-- Pieces after others. -/
theorem append (first : Conveys pieces draft middle) (second : Conveys others middle next) :
    Conveys (pieces ++ others) draft next := by
  obtain ⟨items, rfl, readable, options, gathers⟩ := first
  obtain ⟨later, rfl, readableLater, optionsLater, gathersLater⟩ := second
  refine ⟨items ++ later, List.map_append.symm, ?_, ?_, gathers.append gathersLater⟩
  · exact List.forall_mem_append.mpr ⟨readable, readableLater⟩
  · rw [List.countP_append, options, optionsLater]

/-- The pieces of an option, if it has a number, set it. -/
theorem amount {amount : Amount} {number? : Option Nat} (written : amount.Pieces number? pieces)
    (allowed : ∀ number ∈ number?, amount.Allows number)
    (free : draft.has (.number amount) = false) :
    Conveys pieces draft (number?.elim draft fun number => draft.put amount number) := by
  cases number? with
  | none =>
    obtain rfl : pieces = [] := written
    exact .nil draft
  | some number =>
    have taken {item : Item} (states : item.number? = some (amount, toString number)) :=
      Draft.Takes.number states free (Text.number?_toString number) (allowed number rfl)
    obtain rfl | rfl := written
    · have readable : (Item.spaced amount (some (toString number))).Readable :=
        shape_toString number
      exact singleton readable rfl (taken rfl)
    · have readable : (Item.attached amount (toString number)).Readable := trivial
      exact singleton readable rfl (taken rfl)

/-- The piece for wrapping, if it is there, makes sprites wrap. -/
theorem wrapping (wrap : Bool) (free : draft.wrap = false) :
    Conveys (if wrap then [["--wrap"]] else []) draft { draft with wrap } := by
  cases wrap with
  | true =>
    have readable : Item.wrap.Readable := trivial
    exact singleton readable rfl (.wrap free)
  | false =>
    have same : { draft with wrap := false } = draft := by rw [← free]
    rw [same]
    exact .nil draft

/-- A program and pieces for options are read as what they convey, whatever their order. -/
theorem parse_eq {program : String} (conveys : Conveys pieces { program := some program } next)
    (nonempty : program ≠ "") (plain : program.toList.head? ≠ some '-')
    (order : others.Perm ([program] :: pieces)) : parse others.flatten = next.finish := by
  obtain ⟨options, rfl, readable, count, gathers⟩ := conveys
  have all : Gathers {} (.program program :: options) next := .cons (.program nonempty) gathers
  have named : (Item.program program :: options).countP Item.isProgram = 1 := by
    rw [List.countP_cons_of_pos rfl, count]
  -- Pieces in another order are the arguments of the items in that order.
  obtain ⟨items, rfl, perm⟩ := Eq.mpr (congrFun₂ (List.eq_map_comp_perm Item.arguments) others
    (.program program :: options)) order
  have one : items.countP Item.isProgram = 1 := (perm.countP_eq _).trans named
  have taken : CommandLine.items false (items.map Item.arguments).flatten = items := by
    rw [← List.flatMap_def]
    refine items_flatMap (fun item member => ?_) (Nat.le_of_eq one)
    obtain rfl | option := List.mem_cons.mp (perm.mem_iff.mp member)
    · exact shape_of_head? plain
    · exact readable item option
  have gathered := (gather_eq_ok_iff _ _ _).mpr (all.perm perm.symm (Nat.le_of_eq named))
  rw [parse, taken, gathered]

end Conveys

/-- Options are read from the pieces in which they are written. -/
theorem parse_of_pieces {options : Options} {pieces : List (List String)}
    (nonempty : options.program ≠ "") (plain : options.program.toList.head? ≠ some '-')
    (positive : options.hz ≠ 0) (written : options.Pieces pieces) :
    parse pieces.flatten = .ok options := by
  obtain ⟨rate?, hz, cycles, rate, writtenHz, writtenCycles, order⟩ := written
  have inRange : ∀ number ∈ rate?, Amount.hz.Allows number := by
    rintro number rfl
    obtain same | ⟨none, -⟩ := rate
    · rw [Option.some.inj same]
      exact ⟨UInt32.pos_iff_ne_zero.mpr positive, options.hz.toNat_lt⟩
    · cases none
  have rates : Conveys hz { program := some options.program }
      { program := some options.program, hz := rate?.map .ofNat } := by
    cases rate? <;> exact .amount writtenHz inRange rfl
  have limits : Conveys cycles { program := some options.program, hz := rate?.map .ofNat }
      { program := some options.program, hz := rate?.map .ofNat, cycles := options.cycles } := by
    cases given : options.cycles with
    | none =>
      rw [given] at writtenCycles
      exact .amount writtenCycles (fun number => nofun) rfl
    | some limit =>
      rw [given] at writtenCycles
      rw [← UInt64.ofNat_toNat (x := limit)]
      refine .amount writtenCycles ?_ rfl
      rintro number ⟨⟩
      exact limit.toNat_lt
  have conveys := (rates.append limits).append (.wrapping options.wrap rfl)
  rw [conveys.parse_eq nonempty plain order, Draft.finish]
  obtain rfl | ⟨rfl, standard⟩ := rate
  · rw [Option.map_some, Option.getD_some, UInt32.ofNat_toNat]
  · have usual : Settings.standard.cpuRate = options.hz := standard.symm
    rw [Option.map_none, Option.getD_none, usual]

/-! ## What was read -/

/-- A session is not refused for settings under which an interpreter can run. -/
theorem start_ne_of_created {settings : Settings} {interpreter : Interpreter}
    (created : Interpreter.create settings = .ok interpreter) (name : String)
    (program : Except String (List UInt8)) (limit : Option Nat) (fault : SettingsFault) :
    Session.start settings name program limit ≠ .error (.settings fault) := by
  intro refused
  unfold Session.start at refused
  rw [created] at refused
  cases program with
  | error reason => cases refused
  | ok program =>
    dsimp only at refused
    split at refused
    case h_1 => cases refused
    case h_2 => cases refused

/-- The settings of options are accepted if their rate is positive. -/
theorem check_settings {options : Options} (positive : options.hz ≠ 0) :
    options.settings.check = .ok () := by
  have timers : (60 : UInt32) ≠ 0 := by decide
  exact (Settings.check_eq_ok_iff _).mpr ⟨positive, timers⟩

/-- Sprites wrap when the options say so. -/
theorem edge_settings_iff (options : Options) :
    options.settings.edge = .wrap ↔ options.wrap = true := by
  unfold Options.settings
  cases options.wrap <;> simp

/-- The item for wrapping is the one that gives that option. -/
theorem eq_wrap_of_choice? {item : Item} (gives : item.choice? = some .wrap) : item = .wrap := by
  cases item <;> first | rfl | cases gives

/-- The options of a command line are those of its arguments before two dashes alone. -/
theorem wrap_iff {arguments : List String} {draft : Draft}
    (gathers : Gathers {} (items false arguments) draft) :
    draft.wrap = true ↔ "--wrap" ∈ front arguments := by
  have written := written_items gathers.informs
  have given : draft.wrap =
      (items false arguments).any fun item => item.choice? = some .wrap := gathers.has_eq .wrap
  rw [given, List.any_eq_true]
  constructor
  · rintro ⟨item, member, gives⟩
    rw [eq_wrap_of_choice? (of_decide_eq_true gives)] at member
    exact written.mem_front member
  · intro member
    have asks : Choice.wrap.IsGivenBy "--wrap" := ⟨none, rfl⟩
    obtain ⟨item, among, gives⟩ := written.exists_choice member asks
    exact ⟨item, among, decide_eq_true gives⟩

/-- An interpreter can run under the options that are read. -/
theorem usable_of_parse {arguments : List String} {options : Options}
    (parsed : parse arguments = .ok options) : Usable arguments options := by
  rw [parse] at parsed
  split at parsed
  case h_1 => cases parsed
  case h_2 draft gathered =>
    have gathers := (gather_eq_ok_iff _ _ _).mp gathered
    have sound := gathers.sound ⟨nofun, nofun⟩
    have wraps := wrap_iff gathers
    have once := (written_items gathers.informs).pairwise gathers.pairwise
    obtain ⟨program, hz, cycles, wrap⟩ := draft
    cases program with
    | none => cases parsed
    | some program =>
      cases parsed
      have positive : hz.getD Settings.standard.cpuRate ≠ 0 := by
        cases hz with
        | none => decide
        | some hz => exact fun zero => sound.hz_ne (congrArg some zero)
      have accepted :
          (Options.mk program (hz.getD Settings.standard.cpuRate) cycles wrap).settings.check =
            .ok () := check_settings positive
      have created := (Interpreter.create_eq_ok_iff _ _).mpr ⟨accepted, rfl⟩
      exact {
        program_ne := fun empty => sound.program_ne (congrArg some empty)
        hz_ne := positive
        once
        cpuRate := rfl
        timerRate := rfl
        edge := (edge_settings_iff _).trans wraps
        accepted
        created
        starts := start_ne_of_created created }

/-- A command line written from options, in whatever order, is read as these options, and an
interpreter can run under the options that any command line is read as. -/
theorem parse_written_usable :
    (∀ (options : Options) (pieces : List (List String)), options.program ≠ "" →
      options.program.toList.head? ≠ some '-' → options.hz ≠ 0 → options.Pieces pieces →
      parse pieces.flatten = .ok options) ∧
    ∀ (arguments : List String) (options : Options),
      parse arguments = .ok options → Usable arguments options :=
  ⟨fun _ _ nonempty plain positive written => parse_of_pieces nonempty plain positive written,
    fun _ _ parsed => usable_of_parse parsed⟩

/-- The largest numbers, and a program whose name is a number and follows a flag. -/
theorem parse_written_usable_brimful :
    let options : Options := ⟨"1000", 4294967295, some 18446744073709551615, true⟩
    let arguments :=
      ["--cycles=18446744073709551615", "--wrap", "1000", "--hz", "4294967295"]
    options.Pieces [[arguments[0]], [arguments[1]], [arguments[2]], arguments.drop 3] ∧
      parse arguments = .ok options ∧ Usable arguments options := by
  intro options arguments
  have written :
      options.Pieces [[arguments[0]], [arguments[1]], [arguments[2]], arguments.drop 3] := by
    refine ⟨some 4294967295, [["--hz", "4294967295"]], [["--cycles=18446744073709551615"]],
      .inl rfl, .inl ?_, .inr ?_, ?_⟩
    · decide
    · decide
    · decide
  have parsed : parse arguments = .ok options :=
    parse_written_usable.1 options _ (by decide) (by decide) (by decide) written
  exact ⟨written, parsed, parse_written_usable.2 arguments options parsed⟩

end CommandLine

end Chip8
