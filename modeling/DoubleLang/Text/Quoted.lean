import DoubleLang.Text.Unit

/-! Text shown inside a report: in quotes, with escapes, and cut off when it is long. -/

namespace DoubleLang.Text

/-- How many units of a text are looked at. -/
def lookLimit : Nat := 10000

/-- How many units a text may have before its lines are quoted one by one. -/
def lineLimit : Nat := 76

/-- How many units are shown of what has been quoted. -/
def showLimit : Nat := 128

/-- Whether a text has one character right before another. -/
def hasPair (first second : Char) (text : List Char) : Bool :=
  (text.zip text.tail).contains (first, second)

/-- The quote for a text: single, unless the text has one and another quote spares an escape. -/
def quoteFor (text : List Char) : Char :=
  if !text.contains '\x27' then '\x27'
  else if !text.contains '\x22' then '\x22'
  -- Between the last quotes a dollar sign and a brace would have a meaning.
  else if !text.contains '\x60' && !hasPair '$' '\x7b' text then '\x60'
  else '\x27'

/-- A code below two hundred and fifty-six as two upper-case digits. -/
def twoDigits (code : Nat) : List Char :=
  ((Nat.toDigits 16 (code / 16)) ++ (Nat.toDigits 16 (code % 16))).map Char.toUpper

/-- A character between quotes; control characters, backslashes and single quotes are escaped. -/
def escaped (quote c : Char) : List Char :=
  if c = '\x5c' then ['\x5c', '\x5c']
  else if c = '\x27' ∧ quote = '\x27' then ['\x5c', '\x27']
  else if c = '\x08' then ['\x5c', 'b']
  else if c = '\t' then ['\x5c', 't']
  else if c = '\n' then ['\x5c', 'n']
  else if c = '\x0c' then ['\x5c', 'f']
  else if c = '\r' then ['\x5c', 'r']
  else if c.toNat < 0x20 ∨ (0x7F ≤ c.toNat ∧ c.toNat < 0xA0) then
    '\x5c' :: 'x' :: twoDigits c.toNat
  else [c]

/-- A text in quotes. -/
def quoted (text : List Char) : List Char :=
  let quote := quoteFor text
  quote :: (text.flatMap (escaped quote) ++ [quote])

/-- The lines of a text, each with the line feed that ends it. -/
def feedLines : List Char → List (List Char)
  | [] => []
  | c :: rest =>
    if c = '\n' then [c] :: feedLines rest
    else match feedLines rest with
      | [] => [[c]]
      | line :: lines => (c :: line) :: lines

/-- A text in quotes; the lines of a long one are quoted apart and joined by plus signs. -/
def quotedLines (text : List Char) : List Char :=
  if lineLimit < width text then
    List.intercalate " +\n  ".toList ((feedLines text).map quoted)
  else quoted text

/-- A text as a report shows it. -/
def shown (text : List Char) : String :=
  let whole := quotedLines (takeUnits lookLimit text)
  if showLimit < width whole then cutUnits showLimit whole ++ "..." else String.ofList whole

end DoubleLang.Text
