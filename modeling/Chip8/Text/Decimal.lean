/-!
# Decimal numbers

A number is written with decimal digits alone, at least one and any number of zeros in front, and
may have one plus sign before them. Reading a written number returns it.
-/

namespace Chip8.Text

/-- The value of a decimal digit. -/
def decimalValue? (digit : Char) : Option Nat :=
  if digit.isDigit then some (digit.toNat - '0'.toNat) else none

/-- The number that digits make when they follow those of `upper`. -/
def followedBy? (upper : Nat) : List Char → Option Nat
  | [] => some upper
  | digit :: digits =>
    match decimalValue? digit with
    | some value => followedBy? (10 * upper + value) digits
    | none => none

/-- The number that one or more digits make. -/
def digits? : List Char → Option Nat
  | [] => none
  | digits => followedBy? 0 digits

/-- The number that a text is. -/
def number? (text : String) : Option Nat :=
  match text.toList with
  | '+' :: digits => digits? digits
  | digits => digits? digits

/-- Digits after others go on from the number that those make. -/
theorem followedBy?_append (upper : Nat) (first second : List Char) :
    followedBy? upper (first ++ second) =
      (followedBy? upper first).bind fun number => followedBy? number second := by
  induction first generalizing upper with
  | nil => rfl
  | cons digit rest ih =>
    rw [List.cons_append, followedBy?, followedBy?]
    cases decimalValue? digit with
    | none => rfl
    | some value => exact ih _

/-- The digit of a value below ten has that value. -/
theorem decimalValue?_digitChar {value : Nat} (low : value < 10) :
    decimalValue? value.digitChar = some value := by
  have isDigit : value.digitChar.isDigit = true := by
    rw [Nat.isDigit_digitChar]
    exact decide_eq_true low
  have code : value.digitChar.toNat - '0'.toNat = value := by
    rw [Nat.toNat_digitChar_of_lt_ten low]
    exact Nat.add_sub_cancel_left 48 value
  rw [decimalValue?, if_pos isDigit, code]

/-- The digits of a number make that number. -/
theorem followedBy?_toDigits (number : Nat) :
    followedBy? 0 (Nat.toDigits 10 number) = some number := by
  induction number using Nat.strongRecOn with
  | ind number ih =>
    rw [Nat.toDigits_eq_if (by decide)]
    split
    case isTrue low =>
      simp only [followedBy?, decimalValue?_digitChar low, Nat.mul_zero, Nat.zero_add]
    case isFalse high =>
      have smaller : number / 10 < number := Nat.div_lt_self (by omega) (by decide)
      have last : number % 10 < 10 := Nat.mod_lt _ (by decide)
      rw [followedBy?_append, ih _ smaller, Option.bind_some, followedBy?,
        decimalValue?_digitChar last]
      exact congrArg some (Nat.div_add_mod number 10)

/-- A written number is its digits. -/
theorem toList_toString (number : Nat) : (toString number).toList = Nat.toDigits 10 number := by
  rw [Nat.toString_eq_repr, Nat.toList_repr]

/-- A written number begins with a digit. -/
theorem exists_toList_toString (number : Nat) :
    ∃ digit rest, (toString number).toList = digit :: rest ∧ digit.isDigit = true := by
  rw [toList_toString]
  obtain ⟨digit, rest, same⟩ :=
    List.exists_cons_of_ne_nil (Nat.toDigits_ne_nil : Nat.toDigits 10 number ≠ [])
  have member : digit ∈ Nat.toDigits 10 number := by
    rw [same]
    exact List.mem_cons_self
  exact ⟨digit, rest, same, Nat.isDigit_of_mem_toDigits (by decide) (Nat.le_refl 10) member⟩

/-- A written number is read as itself. -/
@[simp] theorem number?_toString (number : Nat) : number? (toString number) = some number := by
  have made := followedBy?_toDigits number
  obtain ⟨digit, rest, same, isDigit⟩ := exists_toList_toString number
  rw [← toList_toString, same] at made
  unfold number?
  rw [same]
  split
  case h_1 plus =>
    -- A plus sign is no digit.
    cases plus
    cases isDigit
  case h_2 => exact made

end Chip8.Text
