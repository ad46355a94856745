/-! The characters that separate lexemes without meaning anything. -/

namespace DoubleLang.Text

/-- The blank characters as closed ranges of codes, in increasing order. -/
def blankRanges : List (Nat × Nat) :=
  -- The last range is the mark of byte order, which may open a file.
  [(0x0009, 0x000D), (0x0020, 0x0020), (0x00A0, 0x00A0), (0x1680, 0x1680), (0x2000, 0x200A),
   (0x2028, 0x2029), (0x202F, 0x202F), (0x205F, 0x205F), (0x3000, 0x3000), (0xFEFF, 0xFEFF)]

/-- A character is blank when its code lies in one of the ranges. -/
def isBlank (c : Char) : Bool :=
  blankRanges.any fun (low, high) => decide (low ≤ c.toNat ∧ c.toNat ≤ high)

end DoubleLang.Text
