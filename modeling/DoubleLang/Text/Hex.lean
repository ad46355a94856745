/-! Signed integers written in base sixteen. -/

namespace DoubleLang.Text

/-- The sign, the marker `0x` and the lower-case digits of an integer. -/
def signedHex (value : Int) : String :=
  -- The sign stands before the marker, and the digits are those of the absolute value.
  (if value < 0 then "-0x" else "0x") ++ String.ofList (Nat.toDigits 16 value.natAbs)

end DoubleLang.Text
