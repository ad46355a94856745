/-!
Whole numbers as doubles hold them, and how they are written.

A double keeps fifty-three binary digits, so a number with more of them stands for the nearest one
that can be kept. It is written with the fewest decimal digits that tell it from all others.
-/

namespace DoubleLang.Number

/-- What the lowest binary digit counts that a double keeps of a whole number. -/
def unit (value : Nat) : Nat :=
  Nat.pow 2 (value.log2 - 52)

/-- The number a double keeps in place of a whole number: the nearest one, and of two that are as
near the one with the even digits. -/
def nearest (value : Nat) : Nat :=
  -- Digits from the fifty-fourth on are given up.
  let kept := value / unit value
  let excess := value % unit value
  if 2 * excess < unit value ∨ 2 * excess = unit value ∧ kept % 2 = 0 then kept * unit value
  else (kept + 1) * unit value

/-- The number a double keeps, unless it has too many binary digits for any. -/
def kept? (value : Nat) : Option Nat :=
  if (nearest value).log2 < 1024 then some (nearest value) else none

/-- The multiple of a grid that stands for a number, by its count; of two the nearer one. -/
def onGrid? (grid value : Nat) : Option Nat :=
  let low := value / grid
  let excess := value % grid
  -- Of two that are as near the even one is taken.
  let upper := grid < 2 * excess ∨ 2 * excess = grid ∧ low % 2 = 1
  if nearest (low * grid) = value ∧ ¬ (nearest ((low + 1) * grid) = value ∧ upper) then some low
  else if nearest ((low + 1) * grid) = value then some (low + 1)
  else none

/-- The fewest digits that tell a number, and how many zeros follow them. -/
def digits (value : Nat) : Nat × Nat :=
  -- The more zeros, the fewer digits.
  let zeros := (List.range ((Nat.toDigits 10 value).length + 1)).reverse
  (zeros.findSome? fun zeros => (onGrid? (Nat.pow 10 zeros) value).map (·, zeros)).getD (value, 0)

/-- Digits with a point behind the first of them, if there are more. -/
def mantissa : List Char → List Char
  | first :: second :: rest => first :: '.' :: second :: rest
  | few => few

/-- A text by its first digit, the others behind a point, and the power of ten that the first one
counts. -/
def scientific (digits : List Char) (zeros : Nat) : List Char :=
  mantissa digits ++ 'e' :: '+' :: Nat.toDigits 10 (digits.length - 1 + zeros)

/-- How a number that a double keeps is written: in full, unless it has more than twenty-one
digits. -/
def keptText (value : Nat) : List Char :=
  let (digits, zeros) := digits value
  if digits * Nat.pow 10 zeros < Nat.pow 10 21 then Nat.toDigits 10 (digits * Nat.pow 10 zeros)
  else scientific (Nat.toDigits 10 digits) zeros

/-- How a whole number is written that is not negative. -/
def naturalText (value : Nat) : List Char :=
  match kept? value with
  | some kept => keptText kept
  | none => "Infinity".toList

/-- How a whole number is written. -/
def text (value : Int) : String :=
  String.ofList (if value < 0 then '-' :: naturalText value.natAbs else naturalText value.natAbs)

end DoubleLang.Number
