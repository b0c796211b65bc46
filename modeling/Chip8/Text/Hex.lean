/-!
# Hexadecimal text

Numbers are shown in uppercase hexadecimal with a least number of digits, and a typed digit of
either case is read as its value. Reading a shown digit returns it.
-/

namespace Chip8.Text

/-- The sixteen digits, each at the place of its value. -/
def hexDigits : Vector Char 16 :=
  #v['0', '1', '2', '3', '4', '5', '6', '7', '8', '9', 'A', 'B', 'C', 'D', 'E', 'F']

/-- The digit of a value below sixteen. -/
def hexDigit (value : Fin 16) : Char := hexDigits[value]

/-- A number in hexadecimal, with zeros in front up to `width` digits and never fewer digits than
the number needs. -/
def hex (width number : Nat) : String :=
  let digits := (Nat.toDigits 16 number).map Char.toUpper
  String.ofList (List.replicate (width - digits.length) '0' ++ digits)

/-- The value of a digit of either case; no other character has one. -/
def hexValue? (digit : Char) : Option (Fin 16) :=
  (List.finRange 16).find? fun value => hexDigit value == digit || (hexDigit value).toLower == digit

/-- A shown digit is read as its value. -/
theorem hexValue?_hexDigit (value : Fin 16) : hexValue? (hexDigit value) = some value := by
  revert value; decide

/-- A digit in lower case has the same value. -/
theorem hexValue?_toLower_hexDigit (value : Fin 16) :
    hexValue? (hexDigit value).toLower = some value := by
  revert value; decide

/-- A character has a value exactly when it is the digit of that value in one of the two cases. -/
theorem hexValue?_eq_some_iff (digit : Char) (value : Fin 16) :
    hexValue? digit = some value ↔
      digit = hexDigit value ∨ digit = (hexDigit value).toLower := by
  constructor
  · intro found
    have matched := List.find?_some found
    simp only [Bool.or_eq_true, beq_iff_eq] at matched
    exact matched.imp Eq.symm Eq.symm
  · rintro (rfl | rfl)
    · exact hexValue?_hexDigit value
    · exact hexValue?_toLower_hexDigit value

end Chip8.Text
