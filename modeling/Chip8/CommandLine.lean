import Chip8.Settings
import Chip8.Text.Decimal

/-!
# The command line

A command line names the file of a program, and may give the rate of the machine, the number of
cycles allowed, and that sprites wrap at the edge. Arguments are read in two passes. The first
takes them apart into items (`CommandLine.items`) and ends with the first argument that can stand
for none. The second gathers the items (`CommandLine.gather`). The program and a value that stands
as an argument of its own are looked at only when the next item is complete, so an argument that
can stand for none is reported before a bad value in front of it.
-/

namespace Chip8

/-- Why a command line is refused. -/
inductive UsageFault
  /-- No program is named. -/
  | missingProgram
  /-- The name of the program is empty. -/
  | emptyProgram
  /-- An option has no value. -/
  | missingValue
  /-- A value is no number, or outside the range of its option. -/
  | badNumber
  /-- An argument is no option and no second program is taken. -/
  | unknownArgument
  /-- An option is given twice. -/
  | repeated
  /-- A value is given to an option that takes none. -/
  | unexpectedValue
  /-- Help is asked for. -/
  | helpRequested
  deriving DecidableEq, Repr

namespace UsageFault

/-- How the program is used. -/
def usage : String := "usage: chip8 ROM [--hz N] [--cycles N] [--wrap]"

/-- The wording of a refusal. -/
def message : UsageFault → String
  | .missingProgram => s!"no ROM is named\n{usage}"
  | .emptyProgram => s!"the name of the ROM is empty\n{usage}"
  | .missingValue => s!"an option has no value\n{usage}"
  | .badNumber => s!"a value is no number in range\n{usage}"
  | .unknownArgument => s!"an argument is unknown\n{usage}"
  | .repeated => s!"an option is given twice\n{usage}"
  | .unexpectedValue => s!"an option takes no value\n{usage}"
  | .helpRequested => usage

end UsageFault

/-- An option that takes a number. -/
inductive Amount
  /-- The rate of the machine. -/
  | hz
  /-- The number of cycles allowed. -/
  | cycles
  deriving DecidableEq, Repr

/-- What a command line asks for. -/
structure Options where
  /-- The file of the program. -/
  program : String
  /-- The rate of the machine. -/
  hz : UInt32
  /-- The number of cycles allowed, if there is a limit. -/
  cycles : Option UInt64
  /-- Whether sprites wrap at the edge. -/
  wrap : Bool
  deriving DecidableEq, Repr

/-- The settings that a command line asks for. -/
def Options.settings (options : Options) : Settings :=
  { Settings.standard with
    edge := if options.wrap then .wrap else .clip
    cpuRate := options.hz }

namespace CommandLine

/-- What an argument looks like by itself. -/
inductive Shape
  /-- Two dashes alone, after which no argument is an option. -/
  | separator
  /-- Two dashes and a name, and a value after an equals sign. -/
  | long (name : String) (value : Option String)
  /-- One dash and a letter. -/
  | short (letter : Char)
  /-- Anything else, also a dash alone. -/
  | plain
  deriving DecidableEq, Repr

/-- The name and the value in what follows two dashes. -/
def splitLong (body : List Char) : Shape :=
  .long (String.ofList (body.takeWhile (· ≠ '=')))
    (match body.dropWhile (· ≠ '=') with
    | [] => none
    | _ :: value => some (String.ofList value))

/-- What an argument looks like. -/
def shape (argument : String) : Shape :=
  match argument.toList with
  | ['-', '-'] => .separator
  | '-' :: '-' :: body => splitLong body
  | '-' :: letter :: _ => .short letter
  | _ => .plain

/-- A part of a command line that means something. -/
inductive Item
  /-- The file of the program. -/
  | program (name : String)
  /-- An option and its value as two arguments, the second of which may lack. -/
  | spaced (amount : Amount) (value : Option String)
  /-- An option and its value as one argument. -/
  | attached (amount : Amount) (value : String)
  /-- That sprites wrap. -/
  | wrap
  /-- That help is wanted. -/
  | help
  /-- An argument that can stand for none of these. -/
  | refused (fault : UsageFault)
  deriving DecidableEq, Repr

/-- The items of arguments none of which is an option; one program is taken. -/
def plainItems (programGiven : Bool) : List String → List Item
  | [] => []
  | argument :: rest =>
    if programGiven then [.refused .unknownArgument] else .program argument :: plainItems true rest

/-- The option that takes a number and has the given name. -/
def amount? (name : String) : Option Amount :=
  if name = "hz" then some .hz else if name = "cycles" then some .cycles else none

/-- The item of a flag with the given name. -/
def flag (name : String) (value : Option String) : Item :=
  if name = "wrap" then if value.isSome then .refused .unexpectedValue else .wrap
  else if name = "help" then if value.isSome then .refused .unexpectedValue else .help
  else .refused .unknownArgument

/-- The items of a list of arguments, given whether an earlier one named the program. -/
def items (programGiven : Bool) : List String → List Item
  | [] => []
  | argument :: rest =>
    match shape argument with
    | .separator => plainItems programGiven rest
    | .plain =>
      if programGiven then [.refused .unknownArgument] else .program argument :: items true rest
    | .short letter =>
      if letter = 'h' then .help :: items programGiven rest else [.refused .unknownArgument]
    | .long name value =>
      match amount? name, value with
      | some amount, some value => .attached amount value :: items programGiven rest
      | some amount, none =>
        match rest with
        | [] => [.spaced amount none]
        | next :: later =>
          if shape next = .plain then .spaced amount (some next) :: items programGiven later
          else .spaced amount none :: items programGiven (next :: later)
      | none, _ => flag name value :: items programGiven rest

/-- What the items so far ask for. -/
structure Draft where
  /-- The file of the program. -/
  program : Option String := none
  /-- The rate of the machine. -/
  hz : Option UInt32 := none
  /-- The number of cycles allowed. -/
  cycles : Option UInt64 := none
  /-- Whether sprites wrap at the edge. -/
  wrap : Bool := false
  deriving DecidableEq, Repr

namespace Draft

/-- Takes the value of an option, unless it has one. A rate has to be positive. -/
def setAmount (draft : Draft) (amount : Amount) (value : String) : Except UsageFault Draft :=
  match amount with
  | .hz =>
    if draft.hz.isSome then .error .repeated
    else match Text.number? value with
      | some number =>
        if 1 ≤ number ∧ number < 4294967296 then .ok { draft with hz := some (.ofNat number) }
        else .error .badNumber
      | none => .error .badNumber
  | .cycles =>
    if draft.cycles.isSome then .error .repeated
    else match Text.number? value with
      | some number =>
        if number < 18446744073709551616 then .ok { draft with cycles := some (.ofNat number) }
        else .error .badNumber
      | none => .error .badNumber

/-- Takes an item. -/
def add (draft : Draft) : Item → Except UsageFault Draft
  | .program name =>
    if name = "" then .error .emptyProgram else .ok { draft with program := some name }
  | .spaced _ none => .error .missingValue
  | .spaced amount (some value) => draft.setAmount amount value
  | .attached amount value => draft.setAmount amount value
  | .wrap => if draft.wrap then .error .repeated else .ok { draft with wrap := true }
  | .help => .error .helpRequested
  | .refused fault => .error fault

/-- The options asked for once every item is taken. -/
def finish (draft : Draft) : Except UsageFault Options :=
  match draft.program with
  | none => .error .missingProgram
  | some program =>
    .ok ⟨program, draft.hz.getD Settings.standard.cpuRate, draft.cycles, draft.wrap⟩

end Draft

/-- The fault for which an item is not looked at any more, which is that of an argument just after
it; items that are one argument are looked at at once. -/
def overtaken? : Item → List Item → Option UsageFault
  | .program _, .refused fault :: _ => some fault
  | .spaced _ _, .refused fault :: _ => some fault
  | _, _ => none

/-- What a list of items asks for beyond a draft. -/
def gather (draft : Draft) : List Item → Except UsageFault Draft
  | [] => .ok draft
  | item :: rest =>
    match overtaken? item rest with
    | some fault => .error fault
    | none =>
      match draft.add item with
      | .error fault => .error fault
      | .ok draft => gather draft rest

/-- What a command line asks for, given by its arguments. -/
def parse (arguments : List String) : Except UsageFault Options :=
  match gather {} (items false arguments) with
  | .error fault => .error fault
  | .ok draft => draft.finish

end CommandLine

end Chip8
