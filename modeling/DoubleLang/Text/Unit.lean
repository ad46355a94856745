/-!
Text measured in sixteen-bit units: one for a character of the basic plane, else two.

Texts are lists of characters, so half of a pair never stands alone in one: sources, names and paths
that hold such a half are left out. Where a report has to name one, it is written by its code.
-/

namespace DoubleLang.Text

/-- The units of a character: its own code, or a high and a low half above the basic plane. -/
def charUnits (c : Char) : List UInt16 :=
  if c.toNat < 0x10000 then [c.toNat.toUInt16]
  else
    -- Twenty bits remain above the basic plane, ten in each half.
    let above := c.toNat - 0x10000
    [(0xD800 + above / 0x400).toUInt16, (0xDC00 + above % 0x400).toUInt16]

/-- The units of a text, character by character. -/
def units (text : List Char) : List UInt16 :=
  text.flatMap charUnits

/-- The number of units of a character. -/
def charWidth (c : Char) : Nat :=
  if c.toNat < 0x10000 then 1 else 2

/-- The number of units of a text. -/
def width : List Char → Nat
  | [] => 0
  | c :: rest => charWidth c + width rest

/-- The first unit of a character. -/
def leadUnit (c : Char) : UInt16 :=
  if c.toNat < 0x10000 then c.toNat.toUInt16
  else (0xD800 + (c.toNat - 0x10000) / 0x400).toUInt16

/-- A unit on its own; half of a pair is no character, so it is written by its code in braces. -/
def unitText (unit : UInt16) : String :=
  -- The halves of pairs fill one block of codes, high halves first.
  if 0xD800 ≤ unit ∧ unit ≤ 0xDFFF then
    "\x7bU+" ++ String.ofList ((Nat.toDigits 16 unit.toNat).map Char.toUpper) ++ "\x7d"
  else String.singleton (Char.ofNat unit.toNat)

/-- The longest front of a text that has no more units than a limit. -/
def takeUnits (limit : Nat) : List Char → List Char
  | [] => []
  | c :: rest =>
    if charWidth c ≤ limit then c :: takeUnits (limit - charWidth c) rest else []

/-- A text cut off at a number of units, which may leave half of a pair at the end. -/
def cutUnits (limit : Nat) (text : List Char) : String :=
  let front := takeUnits limit text
  -- A pair stands across the limit when the front falls short of it and there is more.
  match text.drop front.length with
  | next :: _ =>
    if width front < limit then String.ofList front ++ unitText (leadUnit next)
    else String.ofList front
  | [] => String.ofList front

/-- Names are ordered by their units, so a pair sorts by its high half. -/
def precedes (a b : String) : Bool :=
  decide (units a.toList ≤ units b.toList)

/-- A character has as many units as its width says. -/
@[simp] theorem length_charUnits (c : Char) : (charUnits c).length = charWidth c := by
  -- Both definitions ask the same question about the code.
  unfold charUnits charWidth
  split <;> rfl

/-- No character is without width. -/
theorem charWidth_pos (c : Char) : 0 < charWidth c := by
  unfold charWidth
  split <;> decide

/-- An empty text has no width. -/
@[simp] theorem width_nil : width [] = 0 := rfl

/-- The first character adds its width. -/
@[simp] theorem width_cons (c : Char) (text : List Char) :
    width (c :: text) = charWidth c + width text := rfl

/-- A text in two parts is as wide as both. -/
@[simp] theorem width_append (front rest : List Char) :
    width (front ++ rest) = width front + width rest := by
  -- Widths add up character by character.
  induction front with
  | nil => simp
  | cons c front ih =>
    rw [List.cons_append, width_cons, width_cons, ih]
    omega

/-- The units of the first character come first. -/
theorem units_cons (c : Char) (text : List Char) :
    units (c :: text) = charUnits c ++ units text := rfl

/-- A text in two parts has the units of both. -/
theorem units_append (front rest : List Char) :
    units (front ++ rest) = units front ++ units rest := by
  simp [units]

/-- A text has as many units as its width says. -/
@[simp] theorem length_units (text : List Char) : (units text).length = width text := by
  induction text with
  | nil => rfl
  | cons c rest ih => rw [units_cons, List.length_append, length_charUnits, ih, width_cons]

end DoubleLang.Text
