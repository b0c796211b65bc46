/-!
# Blank characters

The characters with the Unicode property of being white space. A typed line may hold any character,
so the whole property is needed and not its ASCII part alone.
-/

namespace Chip8.Text

/-- The code points of white space, as ranges with both ends included and in ascending order. -/
def blankRanges : List (Nat × Nat) :=
  [(0x9, 0xD), (0x20, 0x20), (0x85, 0x85), (0xA0, 0xA0), (0x1680, 0x1680), (0x2000, 0x200A),
    (0x2028, 0x2029), (0x202F, 0x202F), (0x205F, 0x205F), (0x3000, 0x3000)]

/-- A character is blank when its code point lies in one of the ranges. -/
def isBlank (char : Char) : Bool :=
  blankRanges.any fun range => range.1 ≤ char.toNat && char.toNat ≤ range.2

end Chip8.Text
