import Chip8.Proofs.CommandLine.Items

/-!
# Gathering the items of a command line

An item that is taken sets a part of the draft that no item has set before, so the order of the
items matters as little as that of the parts (`Gathers.perm`), and no option is taken twice
(`Gathers.pairwise`). Only a second program would replace the first.
-/

namespace Chip8

/-- The numbers that an option takes. -/
def Amount.Allows : Amount → Nat → Prop
  | .hz, number => 1 ≤ number ∧ number < 4294967296
  | .cycles, number => number < 18446744073709551616

namespace CommandLine

/-- The option and the number in writing that an item states, if it does. -/
def Item.number? : Item → Option (Amount × String)
  | .spaced amount (some value) => some (amount, value)
  | .attached amount value => some (amount, value)
  | _ => none

namespace Draft

/-- Whether a draft has an option. -/
def has (draft : Draft) : Choice → Bool
  | .number .hz => draft.hz.isSome
  | .number .cycles => draft.cycles.isSome
  | .wrap => draft.wrap

/-- A draft with the number of an option. -/
def put (draft : Draft) (amount : Amount) (number : Nat) : Draft :=
  match amount with
  | .hz => { draft with hz := some (.ofNat number) }
  | .cycles => { draft with cycles := some (.ofNat number) }

/-- What a draft is once it has taken an item. -/
inductive Takes (draft : Draft) : Item → Draft → Prop
  /-- The file of the program. -/
  | program {name : String} (nonempty : name ≠ "") :
    Takes draft (.program name) { draft with program := some name }
  /-- A number. -/
  | number {item : Item} {amount : Amount} {value : String} {number : Nat}
    (states : item.number? = some (amount, value)) (free : draft.has (.number amount) = false)
    (written : Text.number? value = some number) (allowed : amount.Allows number) :
    Takes draft item (draft.put amount number)
  /-- That sprites wrap. -/
  | wrap (free : draft.has .wrap = false) : Takes draft .wrap { draft with wrap := true }

/-- A number is set when the option has none yet and it is in the range of the option. -/
theorem setAmount_eq_ok_iff (draft next : Draft) (amount : Amount) (value : String) :
    draft.setAmount amount value = .ok next ↔
      draft.has (.number amount) = false ∧ ∃ number, Text.number? value = some number ∧
        amount.Allows number ∧ next = draft.put amount number := by
  unfold setAmount
  cases amount with
  | hz =>
    cases taken : draft.hz with
    | some => simp [has, taken]
    | none =>
      cases Text.number? value with
      | none => simp
      | some number =>
        by_cases inRange : 1 ≤ number ∧ number < 4294967296 <;>
          simp [has, put, taken, Amount.Allows, inRange, eq_comm]
  | cycles =>
    cases taken : draft.cycles with
    | some => simp [has, taken]
    | none =>
      cases Text.number? value with
      | none => simp
      | some number =>
        by_cases inRange : number < 18446744073709551616 <;>
          simp [has, put, taken, Amount.Allows, inRange, eq_comm]

/-- An item that states a number sets it. -/
theorem add_of_number? (draft : Draft) {item : Item} {amount : Amount} {value : String}
    (states : item.number? = some (amount, value)) :
    draft.add item = draft.setAmount amount value := by
  unfold Item.number? at states
  split at states <;> cases states <;> rfl

/-- Items are added as they are taken. -/
theorem add_eq_ok_iff (draft next : Draft) (item : Item) :
    draft.add item = .ok next ↔ draft.Takes item next := by
  constructor
  · intro added
    have states (amount value) (stated : item.number? = some (amount, value)) :
        draft.Takes item next := by
      rw [draft.add_of_number? stated, setAmount_eq_ok_iff] at added
      obtain ⟨free, number, written, allowed, rfl⟩ := added
      exact .number stated free written allowed
    cases item with
    | program name =>
      rw [add] at added
      split at added
      case isTrue => cases added
      case isFalse nonempty =>
        cases added
        exact .program nonempty
    | spaced amount value =>
      cases value with
      | none => cases added
      | some value => exact states amount value rfl
    | attached amount value => exact states amount value rfl
    | wrap =>
      rw [add] at added
      split at added
      case isTrue => cases added
      case isFalse free =>
        cases added
        exact .wrap (Bool.eq_false_iff.mpr free)
    | help => cases added
    | refused => cases added
  · intro takes
    cases takes with
    | program nonempty => exact if_neg nonempty
    | number states free written allowed =>
      rw [draft.add_of_number? states, setAmount_eq_ok_iff]
      exact ⟨free, _, written, allowed, rfl⟩
    | wrap free => exact if_neg (Bool.eq_false_iff.mp free)

/-- Setting a number gives the draft that option. -/
@[simp] theorem has_put (draft : Draft) (amount : Amount) (number : Nat) (choice : Choice) :
    (draft.put amount number).has choice = (draft.has choice || choice = .number amount) := by
  cases amount <;> rcases choice with (_ | _) | _ <;> simp [put, has]

/-- Naming the program leaves the options. -/
@[simp] theorem has_program (draft : Draft) (program : Option String) (choice : Choice) :
    { draft with program }.has choice = draft.has choice := by
  rcases choice with (_ | _) | _ <;> rfl

/-- Wrapping leaves the numbers. -/
@[simp] theorem has_wrap (draft : Draft) (wrap : Bool) (amount : Amount) :
    { draft with wrap }.has (.number amount) = draft.has (.number amount) := by
  cases amount <;> rfl

/-- The program and a number may be set in either order. -/
@[simp] theorem put_program (draft : Draft) (program : Option String) (amount : Amount)
    (number : Nat) :
    { draft with program }.put amount number = { draft.put amount number with program } := by
  cases amount <;> rfl

/-- Wrapping and a number may be set in either order. -/
@[simp] theorem put_wrap (draft : Draft) (wrap : Bool) (amount : Amount) (number : Nat) :
    { draft with wrap }.put amount number = { draft.put amount number with wrap } := by
  cases amount <;> rfl

/-- Numbers of different options may be set in either order. -/
theorem put_comm (draft : Draft) {amount other : Amount} (different : amount ≠ other)
    (number second : Nat) :
    (draft.put amount number).put other second = (draft.put other second).put amount number := by
  cases amount with
  | hz =>
    cases other with
    | hz => exact absurd rfl different
    | cycles => rfl
  | cycles =>
    cases other with
    | hz => rfl
    | cycles => exact absurd rfl different

end Draft

/-- An item that states a number gives its option. -/
theorem Item.choice?_of_number? {item : Item} {amount : Amount} {value : String}
    (states : item.number? = some (amount, value)) : item.choice? = some (.number amount) := by
  unfold number? at states
  split at states <;> cases states <;> rfl

namespace Draft.Takes

variable {draft next : Draft} {item : Item}

/-- An item that is taken says something. -/
theorem informs (takes : draft.Takes item next) : item.Informs := by
  cases takes with
  | program => trivial
  | number states =>
    unfold Item.number? at states
    split at states <;> cases states
    · exact Option.some_ne_none _
    · trivial
  | wrap => trivial

/-- An option that is taken was not there. -/
theorem free (takes : draft.Takes item next) {choice : Choice}
    (gives : item.choice? = some choice) : draft.has choice = false := by
  cases takes with
  | program => cases gives
  | number states free =>
    rw [Item.choice?_of_number? states] at gives
    cases gives
    exact free
  | wrap free =>
    cases gives
    exact free

/-- An item gives a draft its option and no other. -/
theorem has_eq (takes : draft.Takes item next) (choice : Choice) :
    next.has choice = (draft.has choice || item.choice? = some choice) := by
  cases takes with
  | program => simp [Item.choice?]
  | number states => simp [Item.choice?_of_number? states, eq_comm]
  | wrap => rcases choice with (_ | _) | _ <;> simp [has, Item.choice?]

/-- Two items that are taken, and do not both name the program, may be taken in either order. -/
theorem comm {last : Draft} {other : Item} (takes : draft.Takes item next)
    (takesNext : next.Takes other last)
    (different : ¬(item.isProgram = true ∧ other.isProgram = true)) :
    ∃ middle, draft.Takes other middle ∧ middle.Takes item last := by
  -- Two items of the same kind would set the same part, which only numbers of two options do not.
  cases takes with
  | program nonempty =>
    cases takesNext with
    | program => exact absurd ⟨rfl, rfl⟩ different
    | number states free written allowed =>
      rw [has_program] at free
      rw [put_program]
      exact ⟨_, .number states free written allowed, .program nonempty⟩
    | wrap free => exact ⟨_, .wrap free, .program nonempty⟩
  | @number item amount value number states free written allowed =>
    cases takesNext with
    | program nonempty =>
      refine ⟨_, .program nonempty, ?_⟩
      rw [← put_program]
      exact .number states (by rwa [has_program]) written allowed
    | number statesNext freeNext writtenNext allowedNext =>
      simp only [has_put, Bool.or_eq_false_iff, decide_eq_false_iff_not, Choice.number.injEq]
        at freeNext
      obtain ⟨freeBefore, apart⟩ := freeNext
      rw [put_comm _ (Ne.symm apart)]
      refine ⟨_, .number statesNext freeBefore writtenNext allowedNext,
        .number states ?_ written allowed⟩
      simp [free, Ne.symm apart]
    | wrap freeNext =>
      rw [has_put] at freeNext
      refine ⟨_, .wrap (Bool.or_eq_false_iff.mp freeNext).1, ?_⟩
      rw [← put_wrap]
      exact .number states (by rwa [has_wrap]) written allowed
  | wrap free =>
    cases takesNext with
    | program nonempty => exact ⟨_, .program nonempty, .wrap free⟩
    | number states freeNext written allowed =>
      rw [has_wrap] at freeNext
      rw [put_wrap]
      refine ⟨_, .number states freeNext written allowed, .wrap ?_⟩
      rw [has_put, free]
      rfl
    | wrap freeNext => cases freeNext

end Draft.Takes

/-- A draft takes one item after the other. -/
inductive Gathers : Draft → List Item → Draft → Prop
  /-- No item. -/
  | nil (draft : Draft) : Gathers draft [] draft
  /-- An item and the ones after it. -/
  | cons {draft next final : Draft} {item : Item} {rest : List Item}
    (takes : draft.Takes item next) (gathers : Gathers next rest final) :
    Gathers draft (item :: rest) final

/-- Items are gathered one after the other, or refused. -/
theorem gather_eq_ok_iff (draft final : Draft) (items : List Item) :
    gather draft items = .ok final ↔ Gathers draft items final := by
  constructor
  · intro gathered
    induction items generalizing draft with
    | nil =>
      cases gathered
      exact .nil _
    | cons item rest ih =>
      rw [gather] at gathered
      split at gathered
      case h_1 => cases gathered
      case h_2 =>
        split at gathered
        case h_1 => cases gathered
        case h_2 added => exact .cons ((draft.add_eq_ok_iff _ item).mp added) (ih _ gathered)
  · intro gathers
    induction gathers with
    | nil => rfl
    | @cons draft next final item rest takes gathers ih =>
      have looked : overtaken? item rest = none := by
        unfold overtaken?
        split
        case h_1 =>
          cases gathers with
          | cons refused => exact refused.informs.elim
        case h_2 =>
          cases gathers with
          | cons refused => exact refused.informs.elim
        case h_3 => rfl
      rw [gather, looked, (draft.add_eq_ok_iff next item).mpr takes]
      exact ih

/-- The parts of a draft that are set can be part of options. -/
structure Draft.Sound (draft : Draft) : Prop where
  /-- The program has a name. -/
  program_ne : draft.program ≠ some ""
  /-- The rate is positive. -/
  hz_ne : draft.hz ≠ some 0

/-- An item that is taken leaves the draft sound. -/
theorem Draft.Takes.sound {draft next : Draft} {item : Item} (takes : draft.Takes item next)
    (sound : draft.Sound) : next.Sound := by
  cases takes with
  | program nonempty => exact ⟨fun empty => nonempty (Option.some.inj empty), sound.hz_ne⟩
  | @number _ amount _ number _ _ _ allowed =>
    cases amount with
    | hz =>
      obtain ⟨positive, small⟩ := allowed
      refine ⟨sound.program_ne, fun zero => ?_⟩
      have none := congrArg UInt32.toNat (Option.some.inj zero)
      rw [UInt32.toNat_ofNat_of_lt' small] at none
      exact absurd none (Nat.ne_of_gt positive)
    | cycles => exact ⟨sound.program_ne, sound.hz_ne⟩
  | wrap => exact ⟨sound.program_ne, sound.hz_ne⟩

namespace Gathers

variable {draft final : Draft} {items : List Item}

/-- Items may be gathered in two parts. -/
theorem append {middle : Draft} {others : List Item} (first : Gathers draft items middle)
    (second : Gathers middle others final) : Gathers draft (items ++ others) final := by
  induction first with
  | nil => exact second
  | cons takes _ ih => exact .cons takes (ih second)

/-- What is gathered says something. -/
theorem informs (gathers : Gathers draft items final) : ∀ item ∈ items, item.Informs := by
  induction gathers with
  | nil => exact List.forall_mem_nil _
  | cons takes _ ih => exact List.forall_mem_cons.mpr ⟨takes.informs, ih⟩

/-- Gathering items leaves the draft sound. -/
theorem sound (gathers : Gathers draft items final) (begun : draft.Sound) : final.Sound := by
  induction gathers with
  | nil => exact begun
  | cons takes _ ih => exact ih (takes.sound begun)

/-- The options of a draft are those it had and those that the items give. -/
theorem has_eq (gathers : Gathers draft items final) (choice : Choice) :
    final.has choice = (draft.has choice || items.any fun item => item.choice? = some choice) := by
  induction gathers with
  | nil => exact (Bool.or_false _).symm
  | cons takes _ ih => rw [ih, takes.has_eq, List.any_cons, Bool.or_assoc]

/-- No item gives an option that was there. -/
theorem choice?_ne (gathers : Gathers draft items final) {choice : Choice}
    (had : draft.has choice = true) : ∀ item ∈ items, item.choice? ≠ some choice := by
  induction gathers with
  | nil => exact List.forall_mem_nil _
  | cons takes _ ih =>
    refine List.forall_mem_cons.mpr ⟨?_, ih ?_⟩
    · intro gives
      rw [takes.free gives] at had
      cases had
    · rw [takes.has_eq, had, Bool.true_or]

/-- No two items give the same option. -/
theorem pairwise (gathers : Gathers draft items final) :
    items.Pairwise fun first second =>
      ∀ choice, first.choice? = some choice → second.choice? ≠ some choice := by
  induction gathers with
  | nil => exact .nil
  | cons takes gathers ih =>
    refine .cons (fun other member choice gives => gathers.choice?_ne ?_ other member) ih
    rw [takes.has_eq, gives, decide_eq_true rfl, Bool.or_true]

/-- Items may be gathered in any order, as long as one of them at most names the program. -/
theorem perm {others : List Item} (perm : items.Perm others)
    (one : items.countP Item.isProgram ≤ 1) (gathers : Gathers draft items final) :
    Gathers draft others final := by
  -- The draft differs from place to place, and only a swap needs that two items may change places.
  induction perm generalizing draft with
  | nil => exact gathers
  | cons item _ ih =>
    cases gathers with
    | cons takes gathers =>
      rw [List.countP_cons] at one
      exact .cons takes (ih (Nat.le_of_add_right_le one) gathers)
  | swap first second rest =>
    cases gathers with
    | cons takes gathers =>
      cases gathers with
      | cons takesNext gathers =>
        have different : ¬(second.isProgram = true ∧ first.isProgram = true) := by
          rintro ⟨named, namedAgain⟩
          rw [List.countP_cons_of_pos named, List.countP_cons_of_pos namedAgain] at one
          omega
        obtain ⟨middle, takesFirst, takesSecond⟩ := takes.comm takesNext different
        exact .cons takesFirst (.cons takesSecond gathers)
  | trans perm _ first second =>
    exact second (perm.countP_eq _ ▸ one) (first one gathers)

end Gathers

end CommandLine

end Chip8
