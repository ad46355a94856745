import DoubleLang.Text.Blank
import DoubleLang.Token

/-! The pieces a text is cut into: blanks, comments and lexemes, each the longest that fits. -/

namespace DoubleLang

/-- A piece of a text. -/
inductive Piece where
  | blank (c : Char)
  /-- From two slashes through the next line feed, or to the end of the text. -/
  | lineComment (text : List Char)
  /-- From a slash and a star through the next star and slash. -/
  | blockComment (text : List Char)
  | lexeme (kind : Token.Kind) (text : List Char)
  deriving DecidableEq, Repr

namespace Piece

/-- The characters of a piece. -/
def text : Piece → List Char
  | .blank c => [c]
  | .lineComment text => text
  | .blockComment text => text
  | .lexeme _ text => text

/-- Why no piece starts at a place. -/
inductive Fault where
  /-- A block comment is opened and never closed. -/
  | unclosedComment
  /-- A character that starts nothing, named by its first unit. -/
  | unexpected (unit : UInt16)
  deriving DecidableEq, Repr

/-- The wording of a fault. -/
def Fault.message : Fault → String
  | .unclosedComment => "Unterminated block comment."
  | .unexpected unit => "Unexpected character \"" ++ Text.unitText unit ++ "\"."

/-- The words that are no identifiers. -/
def keywords : List String := ["fun", "return"]

/-- A character that may start an identifier. -/
def startsIdentifier (c : Char) : Bool :=
  c.isAlpha || c == '_'

/-- A character that may continue an identifier. -/
def continuesIdentifier (c : Char) : Bool :=
  c.isAlphanum || c == '_'

/-- The signs of the four operations. -/
def isOperator (c : Char) : Bool :=
  ['+', '-', '*', '/'].contains c

/-- The marks that hold a program together. -/
def isPunctuation (c : Char) : Bool :=
  ['(', ')', '\x7b', '\x7d', ',', ';', '='].contains c

/-- Whether a text is an identifier as a whole. -/
def isIdentifierText : List Char → Bool
  | [] => false
  | c :: rest => startsIdentifier c && rest.all continuesIdentifier

/-- The unsigned number a text starts with: digits, and a fraction if digits follow the point. -/
def unsigned? (text : List Char) : Option (List Char) :=
  -- A point without a digit behind it is left to what follows the number.
  let whole := text.takeWhile Char.isDigit
  if whole.isEmpty then none
  else match text.dropWhile Char.isDigit with
    | '.' :: rest =>
      let fraction := rest.takeWhile Char.isDigit
      if fraction.isEmpty then some whole else some (whole ++ '.' :: fraction)
    | _ => some whole

/-- The number a text starts with; behind an operand a minus is an operation and no sign. -/
def number? (afterOperand : Bool) (text : List Char) : Option (List Char) :=
  match text with
  | '-' :: rest => if afterOperand then none else (unsigned? rest).map ('-' :: ·)
  | _ => unsigned? text

/-- A text through its first line feed, or all of it. -/
def throughFeed : List Char → List Char
  | [] => []
  | c :: rest => if c = '\n' then [c] else c :: throughFeed rest

/-- A text through its first star and slash. -/
def throughClose? : List Char → Option (List Char)
  | '*' :: '/' :: _ => some ['*', '/']
  | c :: rest => (throughClose? rest).map (c :: ·)
  | [] => none

/-- The lexeme of an identifier's characters. -/
def word (text : List Char) : Piece :=
  .lexeme (if keywords.contains (String.ofList text) then .keyword else .identifier) text

/-- The lexeme a character starts that is neither blank nor opens a comment. -/
def lexeme? (afterOperand : Bool) (c : Char) (rest : List Char) : Except Fault Piece :=
  -- Numbers come first, for a minus may be their sign.
  match number? afterOperand (c :: rest) with
  | some text => .ok (.lexeme .number text)
  | none =>
    if startsIdentifier c then .ok (word (c :: rest.takeWhile continuesIdentifier))
    else if isOperator c then .ok (.lexeme .operator [c])
    else if isPunctuation c then .ok (.lexeme .punctuation [c])
    else .error (.unexpected (Text.leadUnit c))

/-- The piece at the front of a text that starts with a character. -/
def front (afterOperand : Bool) (c : Char) (rest : List Char) : Except Fault Piece :=
  if Text.isBlank c then .ok (.blank c)
  else match c, rest with
    | '/', '/' :: _ => .ok (.lineComment (throughFeed (c :: rest)))
    -- The star that opens a comment cannot be the one that closes it.
    | '/', '*' :: body =>
      match throughClose? body with
      | some closed => .ok (.blockComment ('/' :: '*' :: closed))
      | none => .error .unclosedComment
    | _, _ => lexeme? afterOperand c rest

/-- Whether an operand stands before what follows a piece; blanks and comments change nothing. -/
def leavesOperand (afterOperand : Bool) : Piece → Bool
  | .lexeme .identifier _ => true
  | .lexeme .number _ => true
  | .lexeme .punctuation text => text == [')']
  | .lexeme _ _ => false
  | _ => afterOperand

/-- A text is its part through the first line feed, and more. -/
private theorem throughFeed_append (text : List Char) :
    ∃ more, text = throughFeed text ++ more := by
  -- A line feed ends the part, and any other character belongs to it.
  induction text with
  | nil => exact ⟨[], rfl⟩
  | cons c rest ih =>
    obtain ⟨more, split⟩ := ih
    by_cases feed : c = '\n'
    · exact ⟨rest, by simp [throughFeed, feed]⟩
    · exact ⟨more, by simpa [throughFeed, feed] using split⟩

/-- A text with a star and slash is its part through the first, and more. -/
theorem throughClose?_append {text closed : List Char} (found : throughClose? text = some closed) :
    ∃ more, text = closed ++ more := by
  -- The first case is the close itself, and the second one passes a character.
  fun_induction throughClose? text generalizing closed with
  | case1 rest =>
    cases found
    exact ⟨rest, rfl⟩
  | case2 c rest _ ih =>
    obtain ⟨inner, later, rfl⟩ := Option.map_eq_some_iff.mp found
    obtain ⟨more, split⟩ := ih later
    exact ⟨more, by simp [← split]⟩
  | case3 => cases found

/-- An unsigned number is not empty, and stands at the front of its text. -/
private theorem unsigned?_append {text number : List Char} (found : unsigned? text = some number) :
    number ≠ [] ∧ ∃ more, text = number ++ more := by
  -- Digits and what follows them make up the text.
  have parts : text = text.takeWhile Char.isDigit ++ text.dropWhile Char.isDigit := by simp
  simp only [unsigned?] at found
  split at found
  · cases found
  · rename_i digits
    have some_digit : text.takeWhile Char.isDigit ≠ [] := by simpa using digits
    split at found
    · rename_i rest point
      split at found
      · cases found
        exact ⟨some_digit, _, parts⟩
      · -- The fraction is a front part of what follows the point.
        cases found
        refine ⟨by simp, rest.dropWhile Char.isDigit, ?_⟩
        rw [point] at parts
        simpa using parts
    · cases found
      exact ⟨some_digit, _, parts⟩

/-- A number is not empty, and stands at the front of its text. -/
theorem number?_append {afterOperand : Bool} {text number : List Char}
    (found : number? afterOperand text = some number) :
    number ≠ [] ∧ ∃ more, text = number ++ more := by
  -- A sign is one more character in front of an unsigned number.
  unfold number? at found
  split at found
  · split at found
    · cases found
    · obtain ⟨digits, later, rfl⟩ := Option.map_eq_some_iff.mp found
      obtain ⟨_, more, split⟩ := unsigned?_append later
      exact ⟨by simp, more, by simp [← split]⟩
  · exact unsigned?_append found

/-- A lexeme starts with its character and goes on with a front part of the rest. -/
private theorem lexeme?_append {afterOperand : Bool} {c : Char} {rest : List Char} {piece : Piece}
    (found : lexeme? afterOperand c rest = .ok piece) :
    ∃ tail more, piece.text = c :: tail ∧ rest = tail ++ more := by
  unfold lexeme? at found
  split at found
  · rename_i number numbered
    cases found
    obtain ⟨filled, more, split⟩ := number?_append numbered
    -- The number is not empty, so its first character is the one given.
    cases number with
    | nil => exact absurd rfl filled
    | cons first tail =>
      simp only [List.cons_append, List.cons.injEq] at split
      exact ⟨tail, more, by simp [text, split.1], split.2⟩
  · split at found
    · cases found
      exact ⟨rest.takeWhile continuesIdentifier, rest.dropWhile continuesIdentifier,
        by simp [word, text], by simp⟩
    · split at found
      · cases found
        exact ⟨[], rest, rfl, rfl⟩
      · split at found
        · cases found
          exact ⟨[], rest, rfl, rfl⟩
        · cases found

/-- A piece starts with its character and goes on with a front part of the rest. -/
theorem front_append {afterOperand : Bool} {c : Char} {rest : List Char} {piece : Piece}
    (found : front afterOperand c rest = .ok piece) :
    ∃ tail more, piece.text = c :: tail ∧ rest = tail ++ more := by
  -- Blanks, both comments and lexemes each start with the character in hand.
  unfold front at found
  split at found
  · cases found
    exact ⟨[], rest, rfl, rfl⟩
  · split at found
    · rename_i later _
      cases found
      obtain ⟨more, split⟩ := throughFeed_append ('/' :: later)
      exact ⟨throughFeed ('/' :: later), more, by simp [text, throughFeed], split⟩
    · split at found
      · rename_i closed closes
        cases found
        obtain ⟨more, split⟩ := throughClose?_append closes
        exact ⟨'*' :: closed, more, rfl, by simp [← split]⟩
      · cases found
    · exact lexeme?_append found

end Piece

end DoubleLang
