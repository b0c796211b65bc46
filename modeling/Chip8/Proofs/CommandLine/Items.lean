import Chip8.CommandLine

/-!
# Taking a command line apart

Every item but a refusal is written as arguments in one way, since an option whose value is attached
is another item than one whose value is the next argument. Arguments that are put together from
items are taken apart into the same items (`items_flatMap`). The other way around, a command line
without refusals was put together from its items, up to the two dashes after which no argument is
an option (`exists_written`).
-/

namespace Chip8

/-- The name of an option that takes a number. -/
def Amount.name : Amount → String
  | .hz => "hz"
  | .cycles => "cycles"

namespace CommandLine

/-- An option. -/
inductive Choice
  /-- An option that takes a number. -/
  | number (amount : Amount)
  /-- That sprites wrap. -/
  | wrap
  deriving DecidableEq, Repr

/-- The name of an option. -/
def Choice.name : Choice → String
  | .number amount => amount.name
  | .wrap => "wrap"

/-- An option as an argument, by itself or with its value. -/
def long (name : String) : Option String → String
  | none => "--" ++ name
  | some value => "--" ++ name ++ "=" ++ value

example : long "hz" none = "--hz" ∧ long "hz" (some "20") = "--hz=20" := by decide

/-- An argument gives an option, by itself or with its value. -/
def Choice.IsGivenBy (choice : Choice) (argument : String) : Prop :=
  ∃ value, argument = long choice.name value

/-- The arguments before two dashes alone, which are those that can be options. -/
def front (arguments : List String) : List String := arguments.takeWhile (· ≠ "--")

/-! ## Shapes -/

/-- The characters of an option. -/
theorem toList_long (name : String) (value : Option String) :
    (long name value).toList =
      '-' :: '-' :: (name.toList ++ value.elim [] fun value => '=' :: value.toList) := by
  cases value <;> simp [long]

/-- What follows two dashes is taken apart without loss. -/
theorem eq_append_of_splitLong {body : List Char} {name : String} {value : Option String}
    (split : splitLong body = .long name value) :
    body = name.toList ++ value.elim [] fun value => '=' :: value.toList := by
  unfold splitLong at split
  injection split with sameName sameValue
  have parts := (List.takeWhile_append_dropWhile (p := (· ≠ '=')) (l := body)).symm
  have first := List.head?_dropWhile_not (· ≠ '=') body
  rw [← sameName, String.toList_ofList]
  cases found : body.dropWhile (· ≠ '=') with
  | nil =>
    rw [found] at sameValue parts
    rw [← sameValue]
    exact parts
  | cons sign value =>
    rw [found] at sameValue parts first
    obtain rfl : sign = '=' := by simpa using first
    rw [← sameValue, Option.elim_some, String.toList_ofList]
    exact parts

/-- A name without equals sign and a value are taken apart again. -/
theorem splitLong_append {name : String} (plain : '=' ∉ name.toList) (value : Option String) :
    splitLong (name.toList ++ value.elim [] fun value => '=' :: value.toList) =
      .long name value := by
  have others : ∀ char ∈ name.toList, decide (char ≠ '=') = true := by
    intro char member
    exact decide_eq_true fun same => plain (same ▸ member)
  unfold splitLong
  rw [List.takeWhile_append_of_pos others, List.dropWhile_append_of_pos others]
  cases value <;> simp

/-- Two dashes and more are an option. -/
theorem shape_of_dashes {argument : String} {body : List Char}
    (dashes : argument.toList = '-' :: '-' :: body) (more : body ≠ []) :
    shape argument = splitLong body := by
  unfold shape
  rw [dashes]
  cases body with
  | nil => exact absurd rfl more
  | cons => rfl

/-- What looks like an option is that option. -/
theorem eq_long_of_shape {argument name : String} {value : Option String}
    (looks : shape argument = .long name value) : argument = long name value := by
  rw [← String.toList_inj, toList_long]
  unfold shape at looks
  split at looks
  case h_1 => cases looks
  case h_2 dashes => rw [dashes, ← eq_append_of_splitLong looks]
  case h_3 => cases looks
  case h_4 => cases looks

/-- An option looks like itself. -/
theorem shape_long {name : String} (nonempty : name ≠ "") (plain : '=' ∉ name.toList)
    (value : Option String) : shape (long name value) = .long name value := by
  rw [shape_of_dashes (toList_long name value), splitLong_append plain]
  rw [Ne, List.append_eq_nil_iff, String.toList_eq_nil_iff]
  exact fun nothing => nonempty nothing.1

/-- The options of the program look like themselves. -/
@[simp] theorem shape_choice (choice : Choice) (value : Option String) :
    shape (long choice.name value) = .long choice.name value := by
  refine shape_long ?_ ?_ value
  · rcases choice with (_ | _) | _ <;> decide
  · rcases choice with (_ | _) | _ <;> decide

/-- An argument gives an option when it looks like it. -/
theorem Choice.isGivenBy_iff (choice : Choice) (argument : String) :
    choice.IsGivenBy argument ↔ ∃ value, shape argument = .long choice.name value := by
  constructor
  · rintro ⟨value, rfl⟩
    exact ⟨value, shape_choice choice value⟩
  · rintro ⟨value, looks⟩
    exact ⟨value, eq_long_of_shape looks⟩

/-- An argument gives one option only. -/
theorem Choice.IsGivenBy.eq {first second : Choice} {argument : String}
    (one : first.IsGivenBy argument) (other : second.IsGivenBy argument) : first = second := by
  obtain ⟨value, looks⟩ := (first.isGivenBy_iff argument).mp one
  obtain ⟨value', looks'⟩ := (second.isGivenBy_iff argument).mp other
  rw [looks] at looks'
  injection looks' with same
  revert same
  rcases first with (_ | _) | _ <;> rcases second with (_ | _) | _ <;> decide

/-! ## Items -/

namespace Item

/-- The option that an item gives, if it gives one. -/
def choice? : Item → Option Choice
  | .spaced amount _ => some (.number amount)
  | .attached amount _ => some (.number amount)
  | .wrap => some .wrap
  | .program _ => none
  | .help => none
  | .refused _ => none

/-- Whether an item names the program. -/
def isProgram : Item → Bool
  | .program _ => true
  | _ => false

/-- The arguments of an item. -/
def arguments : Item → List String
  | .program name => [name]
  | .spaced amount value => long amount.name none :: value.toList
  | .attached amount value => [long amount.name (some value)]
  | .wrap => [long "wrap" none]
  | .help => [long "help" none]
  | .refused _ => []

/-- An item that says something about the options, which a refusal, a call for help and an option
without its value do not. -/
def Informs : Item → Prop
  | .program _ => True
  | .spaced _ value => value ≠ none
  | .attached _ _ => True
  | .wrap => True
  | .help => False
  | .refused _ => False

/-- An item that can be part of options, and whose arguments are taken for what they are: one that
is no option does not look like one. -/
def Readable : Item → Prop
  | .program name => shape name = .plain
  | .spaced _ (some value) => shape value = .plain
  | .spaced _ none => False
  | .attached _ _ => True
  | .wrap => True
  | .help => False
  | .refused _ => False

/-- The arguments of an item look like no option or give that of the item. -/
theorem Readable.argument_cases {item : Item} (readable : item.Readable) {argument : String}
    (member : argument ∈ item.arguments) :
    shape argument = .plain ∨ ∃ choice, item.choice? = some choice ∧ choice.IsGivenBy argument := by
  cases item with
  | program name =>
    rw [List.mem_singleton.mp member]
    exact .inl readable
  | spaced amount value =>
    cases value with
    | none => exact readable.elim
    | some value =>
      obtain rfl | rest := List.mem_cons.mp member
      · exact .inr ⟨_, rfl, none, rfl⟩
      · rw [List.mem_singleton.mp rest]
        exact .inl readable
  | attached amount value => exact .inr ⟨_, rfl, some value, List.mem_singleton.mp member⟩
  | wrap => exact .inr ⟨_, rfl, none, List.mem_singleton.mp member⟩
  | help => exact readable.elim
  | refused => exact readable.elim

end Item

/-- What looks like no option gives none. -/
theorem not_isGivenBy_of_plain {argument : String} (plain : shape argument = .plain)
    (choice : Choice) : ¬choice.IsGivenBy argument := by
  intro gives
  obtain ⟨value, looks⟩ := (choice.isGivenBy_iff argument).mp gives
  rw [plain] at looks
  cases looks

/-- An option among the arguments of an item is that of the item. -/
theorem Item.Readable.choice?_eq {item : Item} (readable : item.Readable) {argument : String}
    (member : argument ∈ item.arguments) {choice : Choice} (gives : choice.IsGivenBy argument) :
    item.choice? = some choice := by
  obtain plain | ⟨own, given, ownGives⟩ := readable.argument_cases member
  · exact absurd gives (not_isGivenBy_of_plain plain choice)
  · rw [given, ownGives.eq gives]

/-- An item gives its option once. -/
theorem Item.Readable.pairwise_arguments {item : Item} (readable : item.Readable) :
    item.arguments.Pairwise fun first second =>
      ∀ choice : Choice, choice.IsGivenBy first → ¬choice.IsGivenBy second := by
  cases item with
  | spaced amount value =>
    cases value with
    | none => exact readable.elim
    | some value =>
      refine List.pairwise_pair.mpr fun choice _ => not_isGivenBy_of_plain readable choice
  | program => exact List.pairwise_singleton _ _
  | attached => exact List.pairwise_singleton _ _
  | wrap => exact List.pairwise_singleton _ _
  | help => exact readable.elim
  | refused => exact readable.elim

/-- The arguments of an item come before two dashes alone. -/
theorem Item.Readable.front_append {item : Item} (readable : item.Readable) (rest : List String) :
    front (item.arguments ++ rest) = item.arguments ++ front rest := by
  refine List.takeWhile_append_of_pos ?_
  intro argument member
  refine decide_eq_true ?_
  rintro rfl
  obtain plain | ⟨choice, -, gives⟩ := readable.argument_cases member
  · revert plain
    decide
  · obtain ⟨value, looks⟩ := (choice.isGivenBy_iff _).mp gives
    have separator : shape "--" = .separator := by decide
    rw [separator] at looks
    cases looks

/-- The option that takes a number is found by its name. -/
@[simp] theorem amount?_name (amount : Amount) : amount? amount.name = some amount := by
  cases amount <;> rfl

/-- The name by which an option that takes a number is found is its own. -/
theorem name_eq_of_amount? {name : String} {amount : Amount} (found : amount? name = some amount) :
    name = amount.name := by
  unfold amount? at found
  split at found
  case isTrue hz =>
    cases found
    exact hz
  case isFalse =>
    split at found
    case isTrue cycles =>
      cases found
      exact cycles
    case isFalse => cases found

/-- The arguments of an item are taken apart into the item, unless it names a second program. -/
theorem items_append {item : Item} (readable : item.Readable) {given : Bool}
    (first : (given && item.isProgram) = false) (rest : List String) :
    items given (item.arguments ++ rest) = item :: items (given || item.isProgram) rest := by
  cases item with
  | program name =>
    have looks : shape name = .plain := readable
    obtain rfl : given = false := by simpa [Item.isProgram] using first
    simp only [Item.arguments, List.singleton_append, items, looks]
    rfl
  | spaced amount value =>
    cases value with
    | none => exact readable.elim
    | some value =>
      have looks : shape (long amount.name none) = .long amount.name none :=
        shape_choice (.number amount) none
      have plain : shape value = .plain := readable
      rw [Item.arguments, Option.toList_some, List.cons_append, List.singleton_append, items]
      simp only [looks, amount?_name, plain, if_true, Item.isProgram, Bool.or_false]
  | attached amount value =>
    have looks : shape (long amount.name (some value)) = .long amount.name (some value) :=
      shape_choice (.number amount) (some value)
    rw [Item.arguments, List.singleton_append, items]
    simp only [looks, amount?_name, Item.isProgram, Bool.or_false]
  | wrap =>
    have looks : shape (long "wrap" none) = .long "wrap" none := shape_choice .wrap none
    rw [Item.arguments, List.singleton_append, items]
    simp only [looks, Item.isProgram, Bool.or_false]
    rfl
  | help => exact readable.elim
  | refused => exact readable.elim

/-- Items that are written one after the other are taken apart again. -/
theorem items_flatMap {written : List Item} (readable : ∀ item ∈ written, item.Readable)
    {given : Bool} (one : written.countP Item.isProgram + given.toNat ≤ 1) :
    items given (written.flatMap Item.arguments) = written := by
  induction written generalizing given with
  | nil => rfl
  | cons item rest ih =>
    obtain ⟨here, others⟩ := List.forall_mem_cons.mp readable
    rw [List.countP_cons] at one
    have first : (given && item.isProgram) = false := by
      cases given <;> cases named : item.isProgram <;> simp_all
    have later : rest.countP Item.isProgram + (given || item.isProgram).toNat ≤ 1 := by
      cases given <;> cases named : item.isProgram <;> simp_all
    rw [List.flatMap_cons, items_append here first, ih others later]

/-- Items from which arguments were put together. Those after two dashes alone give no option. -/
inductive Written : List Item → List String → Prop
  /-- No item. -/
  | nil : Written [] []
  /-- The items after two dashes alone. -/
  | separator {later : List Item} (plain : ∀ item ∈ later, item.choice? = none)
    (rest : List String) : Written later ("--" :: rest)
  /-- One more item. -/
  | cons {item : Item} {items : List Item} {rest : List String} (readable : item.Readable)
    (written : Written items rest) : Written (item :: items) (item.arguments ++ rest)

/-- Arguments that are no options give none. -/
theorem choice?_of_mem_plainItems {given : Bool} {arguments : List String} {item : Item}
    (member : item ∈ plainItems given arguments) : item.choice? = none := by
  induction arguments generalizing given with
  | nil => cases member
  | cons argument rest ih =>
    rw [plainItems] at member
    split at member
    case isTrue =>
      rw [List.mem_singleton.mp member]
      rfl
    case isFalse =>
      obtain rfl | later := List.mem_cons.mp member
      · rfl
      · exact ih later

/-- Two dashes alone are the one separator. -/
theorem eq_of_shape_separator {argument : String} (looks : shape argument = .separator) :
    argument = "--" := by
  rw [← String.toList_inj]
  unfold shape at looks
  split at looks
  case h_1 dashes => exact dashes
  case h_2 => cases looks
  case h_3 => cases looks
  case h_4 => cases looks

/-- The flag that says something is the one for wrapping, which has no value. -/
theorem eq_wrap_of_flag {name : String} {value : Option String}
    (informs : (flag name value).Informs) : name = "wrap" ∧ value = none := by
  unfold flag at informs
  split at informs
  case isTrue wrap =>
    cases value with
    | none => exact ⟨wrap, rfl⟩
    | some => exact informs.elim
  case isFalse =>
    split at informs
    case isTrue => cases value <;> exact informs.elim
    case isFalse => exact informs.elim

/-- Arguments all of whose items say something were put together from them. -/
theorem written_items {given : Bool} {arguments : List String}
    (informs : ∀ item ∈ items given arguments, item.Informs) :
    Written (items given arguments) arguments := by
  -- Where an item is refused, or says nothing else, the assumption fails.
  fun_induction items given arguments
  case case1 => exact .nil
  case case2 looks =>
    rw [eq_of_shape_separator looks]
    exact .separator (fun item => choice?_of_mem_plainItems) _
  case case3 => exact (informs _ List.mem_cons_self).elim
  case case4 looks _ ih =>
    have readable : (Item.program _).Readable := looks
    exact .cons readable (ih (List.forall_mem_cons.mp informs).2)
  case case5 => exact (informs _ List.mem_cons_self).elim
  case case6 => exact (informs _ List.mem_cons_self).elim
  case case7 amount value found looks ih =>
    rw [eq_long_of_shape looks, name_eq_of_amount? found]
    have readable : (Item.attached amount value).Readable := trivial
    exact .cons readable (ih (List.forall_mem_cons.mp informs).2)
  case case8 => exact absurd rfl (informs _ List.mem_cons_self)
  case case9 amount found next _ plain looks ih =>
    rw [eq_long_of_shape looks, name_eq_of_amount? found]
    have readable : (Item.spaced amount (some next)).Readable := plain
    exact .cons readable (ih (List.forall_mem_cons.mp informs).2)
  case case10 => exact absurd rfl (informs _ List.mem_cons_self)
  case case11 looks _ ih =>
    obtain ⟨here, others⟩ := List.forall_mem_cons.mp informs
    obtain ⟨rfl, rfl⟩ := eq_wrap_of_flag here
    rw [eq_long_of_shape looks]
    have readable : Item.wrap.Readable := trivial
    exact .cons readable (ih others)

namespace Written

variable {items : List Item} {arguments : List String}

/-- The options among the arguments are those that the items give. -/
theorem exists_choice (written : Written items arguments) {argument : String}
    (member : argument ∈ front arguments) {choice : Choice} (gives : choice.IsGivenBy argument) :
    ∃ item ∈ items, item.choice? = some choice := by
  induction written with
  | nil => cases member
  | separator => cases member
  | cons readable _ ih =>
    rw [readable.front_append] at member
    obtain here | there := List.mem_append.mp member
    · exact ⟨_, List.mem_cons_self, readable.choice?_eq here gives⟩
    · obtain ⟨item, among, given⟩ := ih there
      exact ⟨item, List.mem_cons_of_mem _ among, given⟩

/-- The argument for wrapping is there when its item is. -/
theorem mem_front (written : Written items arguments) (wraps : .wrap ∈ items) :
    "--wrap" ∈ front arguments := by
  induction written with
  | nil => cases wraps
  | separator plain => cases plain _ wraps
  | cons readable _ ih =>
    rw [readable.front_append]
    obtain rfl | there := List.mem_cons.mp wraps
    · exact List.mem_append_left _ List.mem_cons_self
    · exact List.mem_append_right _ (ih there)

/-- No option is among the arguments twice if none is given by two items. -/
theorem pairwise (written : Written items arguments)
    (once : items.Pairwise fun first second =>
      ∀ choice, first.choice? = some choice → second.choice? ≠ some choice) :
    (front arguments).Pairwise fun first second =>
      ∀ choice : Choice, choice.IsGivenBy first → ¬choice.IsGivenBy second := by
  induction written with
  | nil => exact .nil
  | separator => exact .nil
  | cons readable written ih =>
    obtain ⟨here, others⟩ := List.pairwise_cons.mp once
    rw [readable.front_append, List.pairwise_append]
    refine ⟨readable.pairwise_arguments, ih others, ?_⟩
    intro first member second later choice gives givesAgain
    obtain ⟨other, among, given⟩ := written.exists_choice later givesAgain
    exact here other among choice (readable.choice?_eq member gives) given

end Written

end CommandLine

end Chip8
