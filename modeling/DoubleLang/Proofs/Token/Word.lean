import DoubleLang.Proofs.Token.Layout

/-!
Words written one right behind another.

Words need a blank between them only where both could be one word. Where an operand, that is a name,
a number or a closing parenthesis, is followed by a sign or a mark, and anything else by no sign, it
is enough to put one behind each keyword. The signs of numbers are then told from operations too.
-/

namespace DoubleLang

/-- A word of the language: its kind and its text. -/
abbrev Word := Token.Kind × String

namespace Word

/-- A punctuation mark. -/
def mark (text : String) : Word :=
  (.punctuation, text)

/-- The lexeme of a word. -/
def lexeme (word : Word) : Piece :=
  .lexeme word.1 word.2.toList

/-- The pieces a word is written as: itself, and a space behind a keyword. -/
def pieces (word : Word) : List Piece :=
  if word.1 = .keyword then [word.lexeme, .blank ' '] else [word.lexeme]

/-- A word as it is written: a keyword with a space behind it. -/
def written (word : Word) : String :=
  if word.1 = .keyword then word.2 ++ " " else word.2

/-- The text of words, with no space but those behind keywords. -/
def writtenAll (words : List Word) : String :=
  String.join (words.map written)

/-- Words that are well formed, with operations behind operands only and nothing else behind them
but marks. -/
def InTurn (afterOperand : Bool) : List Word → Prop
  | [] => True
  | word :: rest =>
    word.lexeme.Fits false [] ∧
      (if afterOperand then word.1 ∈ [.operator, .punctuation] else word.1 ≠ .operator) ∧
      InTurn (word.lexeme.leavesOperand afterOperand) rest

/-- The pieces of a word have the text that is written for it. -/
private theorem text_pieces (word : Word) :
    word.pieces.flatMap Piece.text = word.written.toList := by
  unfold pieces written
  split <;> simp [lexeme, Piece.text]

/-- The pieces of words have the text that is written for them. -/
private theorem text_flatMap_pieces (words : List Word) :
    (words.flatMap pieces).flatMap Piece.text = (writtenAll words).toList := by
  simp [writtenAll, String.toList_join, List.flatMap_assoc, List.flatMap_map, text_pieces]

/-- The words are the lexemes of what is written. -/
theorem lexemes_pieces (words : List Word) :
    (words.flatMap pieces).filterMap Piece.asLexeme? =
      words.map fun word => (word.1, word.2.toList) := by
  -- Each word has one lexeme among its pieces, whether or not a space stands behind it.
  induction words with
  | nil => rfl
  | cons word rest ih =>
    have here : word.pieces.filterMap Piece.asLexeme? = [(word.1, word.2.toList)] := by
      unfold pieces
      split <;> rfl
    rw [List.flatMap_cons, List.filterMap_append, here, ih, List.map_cons, List.singleton_append]

/-- A well-formed word is not empty; a sign or a mark lengthens no word, and nothing but a sign is
taken for a part of a comment. -/
private theorem starts_of_fits {word : Word} (shape : word.lexeme.Fits false []) :
    ∃ c tail, word.2.toList = c :: tail ∧
      (word.1 ∈ [.operator, .punctuation] → Piece.lengthens c = false) ∧
      (word.1 ≠ .operator → ['/', '*'].contains c = false) := by
  obtain ⟨kind, text⟩ := word
  -- Names and keywords start with a letter or an underscore.
  have words (named : Piece.isIdentifierText text.toList = true) :
      ∃ c tail, text.toList = c :: tail ∧ ['/', '*'].contains c = false := by
    cases spelled : text.toList with
    | nil => simp [spelled, Piece.isIdentifierText] at named
    | cons c tail =>
      simp only [spelled, Piece.isIdentifierText, Bool.and_eq_true] at named
      refine ⟨c, tail, rfl, ?_⟩
      by_contra opens
      simp only [List.contains_cons, List.contains_nil, Bool.or_false, Bool.not_eq_false,
        Bool.or_eq_true, beq_iff_eq] at opens
      rcases opens with rfl | rfl <;> exact absurd named.1 (by decide)
  cases kind with
  | identifier =>
    obtain ⟨c, tail, spelled, plain⟩ := words shape.1
    exact ⟨c, tail, spelled, by simp, fun _ => plain⟩
  | keyword =>
    obtain ⟨c, tail, spelled, plain⟩ := words (Piece.isIdentifierText_of_keyword shape.1)
    exact ⟨c, tail, spelled, by simp, fun _ => plain⟩
  | number =>
    rcases shape.1 with unsigned | ⟨digits, -, spelled⟩
    · obtain ⟨c, tail, spelled, digit⟩ := unsigned.startsWith []
      refine ⟨c, tail, by simpa using spelled, by simp, fun _ => ?_⟩
      by_contra opens
      simp only [List.contains_cons, List.contains_nil, Bool.or_false, Bool.not_eq_false,
        Bool.or_eq_true, beq_iff_eq] at opens
      rcases opens with rfl | rfl <;> exact absurd digit (by decide)
    · exact ⟨'-', digits, spelled, by simp, fun _ => by decide⟩
  | operator =>
    obtain ⟨c, spelled, sign, -, -⟩ := shape
    refine ⟨c, [], spelled, fun _ => ?_, by simp⟩
    simp only [List.mem_cons, List.not_mem_nil, or_false] at sign
    rcases sign with rfl | rfl | rfl | rfl <;> decide
  | punctuation =>
    obtain ⟨c, spelled, sign⟩ := shape
    simp only [List.mem_cons, List.not_mem_nil, or_false] at sign
    refine ⟨c, [], spelled, fun _ => ?_, fun _ => ?_⟩ <;>
      rcases sign with rfl | rfl | rfl | rfl | rfl | rfl | rfl <;> decide
  | finish => exact absurd shape id

/-- Words in turn behind an operand do not lengthen it, and elsewhere they open no comment behind a
slash. -/
theorem InTurn.starts {afterOperand : Bool} {words : List Word} (turn : InTurn afterOperand words) :
    (afterOperand = true → ¬ Piece.StartsWith Piece.lengthens (writtenAll words).toList) ∧
      (afterOperand = false →
        ¬ Piece.StartsWith (['/', '*'].contains ·) (writtenAll words).toList) := by
  -- The first character of the first word decides, and without a word there is none.
  cases words with
  | nil => simp [writtenAll, Piece.StartsWith]
  | cons word rest =>
    obtain ⟨shape, placed, -⟩ := turn
    obtain ⟨c, tail, spelled, short, plain⟩ := starts_of_fits shape
    -- The blank behind a keyword does not change how the word starts.
    obtain ⟨more, front⟩ : ∃ more, (writtenAll (word :: rest)).toList = c :: more := by
      by_cases keyword : word.1 = .keyword <;>
        simp [writtenAll, written, String.toList_join, keyword, spelled]
    rw [front]
    constructor
    · rintro rfl ⟨d, later, same, long⟩
      cases same
      simp [short (by simpa using placed)] at long
    · rintro rfl ⟨d, later, same, opens⟩
      cases same
      exact Bool.false_ne_true ((plain (by simpa using placed)).symm.trans opens)

/-- A well-formed word in its turn is well formed behind what stands before it. -/
private theorem fits_of_turn {afterOperand : Bool} {word : Word} (shape : word.lexeme.Fits false [])
    (placed : if afterOperand then word.1 ∈ [.operator, .punctuation] else word.1 ≠ .operator) :
    word.lexeme.Fits afterOperand [] := by
  -- Only the sign of a number asks for what stands before, and no number stands behind an operand.
  cases afterOperand with
  | false => exact shape
  | true =>
    obtain ⟨kind, text⟩ := word
    cases kind with
    | operator =>
      obtain ⟨c, spelled, sign, slash, -⟩ := shape
      exact ⟨c, spelled, sign, slash, fun _ _ => rfl⟩
    | punctuation => exact shape
    | _ => simp at placed

/-- The pieces of words in turn fit one after another. -/
private theorem InTurn.fitInTurn {afterOperand : Bool} {words : List Word}
    (turn : InTurn afterOperand words) :
    Piece.FitInTurn afterOperand (words.flatMap pieces) := by
  -- A word is held against the text of those behind it, of which only the start matters.
  induction words generalizing afterOperand with
  | nil => trivial
  | cons word rest ih =>
    obtain ⟨shape, placed, later⟩ := turn
    have alone := fits_of_turn shape placed
    obtain ⟨operand, elsewhere⟩ := later.starts
    have behind := ih later
    obtain ⟨kind, text⟩ := word
    by_cases keyword : kind = .keyword
    · -- The space behind a keyword ends it.
      subst keyword
      have space : Piece.StartsWith Text.isBlank
          ((Piece.blank ' ' :: rest.flatMap pieces).flatMap Piece.text) :=
        ⟨' ', _, rfl, by decide⟩
      have separator : Piece.StartsWith Piece.startsSeparator
          ((Piece.blank ' ' :: rest.flatMap pieces).flatMap Piece.text) :=
        ⟨' ', _, rfl, by decide⟩
      exact ⟨Piece.Fits.before_separator alone (.inr separator) fun _ => .inr space,
        show Text.isBlank ' ' = true by decide, behind⟩
    · have only : pieces (kind, text) = [lexeme (kind, text)] := by simp [pieces, keyword]
      rw [List.flatMap_cons, only, List.singleton_append]
      refine ⟨?_, behind⟩
      rw [text_flatMap_pieces]
      apply Piece.Fits.before alone
      · -- Names and numbers are operands.
        intro listed
        simp only [List.mem_cons, List.not_mem_nil, keyword, or_false] at listed
        rcases listed with rfl | rfl <;> exact operand rfl
      · -- An operation leaves no operand, and comes behind one only.
        rintro rfl -
        exact elsewhere rfl
      · rintro rfl - -
        cases afterOperand with
        | true => rfl
        | false => simp at placed

/-- Words in turn are the lexemes of the text that is written for them. -/
theorem InTurn.cut {words : List Word} (turn : InTurn false words) :
    Cut.ofText (writtenAll words).toList = ⟨words.flatMap pieces, none⟩ :=
  (Piece.ofTextFrom_eq_iff false _ _).mpr ⟨text_flatMap_pieces words, turn.fitInTurn⟩

end Word

end DoubleLang
