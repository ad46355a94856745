import DoubleLang.Text.Unit

/-! Places in a source text: positions, and the spans between them. -/

namespace DoubleLang

/-- A place in a text, by line and column from one and by offset from zero, all in units. -/
structure Position where
  line : Nat
  column : Nat
  offset : Nat
  deriving DecidableEq, Repr, Inhabited

namespace Position

/-- The start of every text. -/
def start : Position := ⟨1, 1, 0⟩

/-- The position behind one more character; only a line feed ends a line. -/
def advance (place : Position) (c : Char) : Position :=
  if c = '\n' then ⟨place.line + 1, 1, place.offset + 1⟩
  else ⟨place.line, place.column + Text.charWidth c, place.offset + Text.charWidth c⟩

/-- The position behind a text that begins here. -/
def after (place : Position) (text : List Char) : Position :=
  text.foldl advance place

/-- Nothing is passed. -/
@[simp] theorem after_nil (place : Position) : place.after [] = place := rfl

/-- The first character is passed before the others. -/
@[simp] theorem after_cons (place : Position) (c : Char) (text : List Char) :
    place.after (c :: text) = (place.advance c).after text := rfl

/-- A front is passed before what follows it. -/
@[simp] theorem after_append (place : Position) (front rest : List Char) :
    place.after (front ++ rest) = (place.after front).after rest := by
  simp [after]

/-- Offsets grow by the width of what is passed. -/
theorem offset_after (place : Position) (text : List Char) :
    (place.after text).offset = place.offset + Text.width text := by
  induction text generalizing place with
  | nil => rfl
  | cons c rest ih =>
    rw [after_cons, ih, Text.width_cons]
    -- A line feed lies in the basic plane, so both branches pass the width of the character.
    by_cases feed : c = '\n'
    · subst feed
      simp only [advance, if_true]
      have : Text.charWidth '\n' = 1 := by decide
      omega
    · simp only [advance, if_neg feed]
      omega

end Position

/-- A stretch of a file from one position up to another. -/
structure Span where
  file : String
  start : Position
  stop : Position
  deriving DecidableEq, Repr, Inhabited

/-- From the start of one span to the end of another, in the file of the first. -/
def Span.join (first last : Span) : Span :=
  ⟨first.file, first.start, last.stop⟩

end DoubleLang
