import DoubleLang.Proofs.Token.Munch

/-!
Lexemes under other layouts.

A lexeme is told by its own characters, the lexeme before it and the one character or two behind
it. Separators start with characters that lengthen no lexeme, so a text of the same lexemes with
other separators between them is cut into the same lexemes.
-/

namespace DoubleLang

namespace Piece

instance (belongs : Char → Bool) (text : List Char) : Decidable (StartsWith belongs text) :=
  match text with
  | [] => .isFalse fun ⟨_, _, starts, _⟩ => by cases starts
  | c :: rest => decidable_of_iff (belongs c = true) ⟨fun member => ⟨c, rest, rfl, member⟩,
      fun ⟨_, _, starts, member⟩ => by cases starts; exact member⟩

/-- Text that only separates: blanks, line comments with their line feeds and closed block
comments, any number of them. -/
inductive Separates : List Char → Prop where
  | nothing : Separates []
  | blank {c : Char} {rest : List Char} (spaced : Text.isBlank c = true)
      (more : Separates rest) : Separates (c :: rest)
  | lineComment {body rest : List Char} (feedless : '\n' ∉ body) (more : Separates rest) :
      Separates ('/' :: '/' :: (body ++ '\n' :: rest))
  | blockComment {body rest : List Char} (unclosed : ¬ ['*', '/'] <:+: body)
      (more : Separates rest) : Separates ('/' :: '*' :: (body ++ '*' :: '/' :: rest))

/-- Text behind all lexemes: what separates, and perhaps a line comment that the text ends in. -/
def Trails (text : List Char) : Prop :=
  ∃ gap rest, text = gap ++ rest ∧ Separates gap ∧
    (rest = [] ∨ ∃ body, '\n' ∉ body ∧ rest = '/' :: '/' :: body)

/-- Lexemes with separators between them, from the first one on. -/
def Spaced : List (List Char) → List Char → Prop
  | [], text => Trails text
  | first :: rest, text =>
    ∃ gap more, text = first ++ (gap ++ more) ∧ Separates gap ∧ Spaced rest more ∧
      (rest ≠ [] → gap ≠ []) ∧
      -- Right behind a slash, another slash or a star would open a comment.
      (first = ['/'] → gap ++ more = [] ∨ StartsWith Text.isBlank (gap ++ more))

/-- Lexemes with separators between them, and perhaps before the first one. -/
def LaidOut (lexemes : List (List Char)) (text : List Char) : Prop :=
  ∃ gap more, text = gap ++ more ∧ Separates gap ∧ Spaced lexemes more

/-- Lexemes that are well formed one after another, from whether an operand stands before them. -/
def ReadInTurn (afterOperand : Bool) : List (Token.Kind × List Char) → Prop
  | [] => True
  | (kind, text) :: rest =>
    (lexeme kind text).Fits afterOperand [] ∧
      ReadInTurn ((lexeme kind text).leavesOperand afterOperand) rest

/-- The characters that go on with a word or a number: those of identifiers, and the point. -/
def lengthens (c : Char) : Bool :=
  continuesIdentifier c || c == '.'

/-- Whether a piece is well formed at all is seen without the text behind it. -/
theorem Fits.alone {afterOperand : Bool} {kind : Token.Kind} {text rest : List Char}
    (fits : (lexeme kind text).Fits afterOperand rest) :
    (lexeme kind text).Fits afterOperand [] :=
  Fits.of_append (show (lexeme kind text).Fits afterOperand ([] ++ rest) from fits)

/-- A lexeme that is well formed stands in front of every text that does not lengthen it. -/
theorem Fits.before {afterOperand : Bool} {kind : Token.Kind} {text rest : List Char}
    (alone : (lexeme kind text).Fits afterOperand [])
    (ends : kind ∈ [.identifier, .number, .keyword] → ¬ StartsWith lengthens rest)
    (slash : kind = .operator → text = ['/'] → ¬ StartsWith (['/', '*'].contains ·) rest)
    (minus : kind = .operator → text = ['-'] → StartsWith Char.isDigit rest →
      afterOperand = true) :
    (lexeme kind text).Fits afterOperand rest := by
  -- Digits and the characters of identifiers are among those that lengthen.
  have boundary (listed : kind ∈ [.identifier, .number, .keyword]) :
      ¬ StartsWith continuesIdentifier rest := by
    rintro ⟨c, more, starts, inside⟩
    exact ends listed ⟨c, more, starts, by simp [lengthens, inside]⟩
  cases kind with
  | identifier => exact ⟨alone.1, alone.2.1, boundary (by simp)⟩
  | number =>
    refine ⟨alone.1, ⟨?_, ?_⟩, alone.2.2⟩
    · rintro ⟨c, more, starts, digit⟩
      have inside : continuesIdentifier c = true := by
        simp [continuesIdentifier, Char.isAlphanum, digit]
      exact boundary (by simp) ⟨c, more, starts, inside⟩
    · -- No point comes next at all, so none that a digit follows does.
      rintro - more rfl
      exact absurd ⟨'.', more, rfl, by decide⟩ (ends (by simp))
  | operator =>
    obtain ⟨c, rfl, sign, -, -⟩ := alone
    exact ⟨c, rfl, sign, fun same => slash rfl (by rw [same]),
      fun same => minus rfl (by rw [same])⟩
  | punctuation => exact alone
  | keyword => exact ⟨alone.1, boundary (by simp)⟩
  | finish => exact alone

/-- A character that separators start with: a blank, or the slash of a comment. -/
def startsSeparator (c : Char) : Bool :=
  Text.isBlank c || c == '/'

/-- What separates is empty or starts with a separator. -/
theorem Separates.starts {gap : List Char} (separates : Separates gap) :
    gap = [] ∨ StartsWith startsSeparator gap := by
  -- Both comments start with a slash.
  cases separates with
  | nothing => exact .inl rfl
  | blank spaced more => exact .inr ⟨_, _, rfl, by simp [startsSeparator, spaced]⟩
  | lineComment feedless more => exact .inr ⟨_, _, rfl, by decide⟩
  | blockComment unclosed more => exact .inr ⟨_, _, rfl, by decide⟩

/-- What stands behind all lexemes is empty or starts with a separator. -/
theorem Trails.starts {text : List Char} (trails : Trails text) :
    text = [] ∨ StartsWith startsSeparator text := by
  -- Behind the last lexeme stand separators, and then a comment or nothing.
  obtain ⟨gap, rest, rfl, separates, tail⟩ := trails
  -- Separators come first, and without them the last comment does.
  rcases separates.starts with rfl | ⟨c, more, rfl, starts⟩
  · rcases tail with rfl | ⟨body, -, rfl⟩
    · exact .inl rfl
    · exact .inr ⟨_, _, rfl, by decide⟩
  · exact .inr ⟨c, more ++ rest, rfl, starts⟩

/-- A separator starts with no character that lengthens a lexeme. -/
private theorem lengthens_of_startsSeparator {c : Char} (starts : startsSeparator c = true) :
    lengthens c = false ∧ c.isDigit = false := by
  -- Characters of identifiers are digits and those that start one, and neither kind separates.
  have digit : c.isDigit = false := by
    by_contra digit
    have excluded := isDigit_excludes (by simpa using digit)
    simp [startsSeparator, excluded] at starts
  have letter : startsIdentifier c = false := by
    by_contra letter
    have excluded := startsIdentifier_excludes (by simpa using letter)
    simp [startsSeparator, excluded] at starts
  have point : c ≠ '.' := by
    rintro rfl
    revert starts
    decide
  refine ⟨?_, digit⟩
  simp only [startsIdentifier, Bool.or_eq_false_iff] at letter
  simp [lengthens, continuesIdentifier, Char.isAlphanum, letter, digit, point]

/-- Pieces that fit have lexemes that are well formed in turn. -/
theorem FitInTurn.readInTurn {afterOperand : Bool} {pieces : List Piece}
    (fit : FitInTurn afterOperand pieces) :
    ReadInTurn afterOperand (pieces.filterMap asLexeme?) := by
  -- Blanks and comments are no lexemes and leave what stands before as it was.
  induction pieces generalizing afterOperand with
  | nil => trivial
  | cons piece rest ih =>
    obtain ⟨here, later⟩ := fit
    cases piece with
    | lexeme kind text => exact ⟨here.alone, ih later⟩
    | blank c => exact ih later
    | lineComment text => exact ih later
    | blockComment text => exact ih later

/-- What separates is cut into pieces that are no lexemes, whatever fits behind them. -/
theorem Separates.pieces {gap : List Char} (separates : Separates gap) :
    ∃ pieces : List Piece, pieces.flatMap Piece.text = gap ∧ pieces.filterMap asLexeme? = [] ∧
      ∀ afterOperand more, FitInTurn afterOperand more →
        FitInTurn afterOperand (pieces ++ more) := by
  -- Each separator is one piece more in front of those of the rest.
  induction separates with
  | nothing => exact ⟨[], rfl, rfl, fun _ _ fit => fit⟩
  | @blank c rest spaced _ ih =>
    obtain ⟨pieces, rfl, silent, fit⟩ := ih
    exact ⟨.blank c :: pieces, rfl, silent, fun before more behind =>
      ⟨spaced, fit before more behind⟩⟩
  | @lineComment body rest feedless _ ih =>
    obtain ⟨pieces, rfl, silent, fit⟩ := ih
    refine ⟨.lineComment ('/' :: '/' :: (body ++ ['\n'])) :: pieces, by simp [Piece.text], silent,
      fun before more behind => ⟨⟨body, feedless, .inl rfl⟩, fit before more behind⟩⟩
  | @blockComment body rest unclosed _ ih =>
    obtain ⟨pieces, rfl, silent, fit⟩ := ih
    refine ⟨.blockComment ('/' :: '*' :: (body ++ ['*', '/'])) :: pieces, by simp [Piece.text],
      silent, fun before more behind => ⟨⟨body, rfl, unclosed⟩, fit before more behind⟩⟩

/-- What stands behind all lexemes is cut into pieces that are no lexemes. -/
theorem Trails.pieces {text : List Char} (trails : Trails text) (afterOperand : Bool) :
    ∃ pieces : List Piece, pieces.flatMap Piece.text = text ∧ pieces.filterMap asLexeme? = [] ∧
      FitInTurn afterOperand pieces := by
  -- The separators are pieces by themselves, and a comment at the end is one more.
  obtain ⟨gap, rest, rfl, separates, tail⟩ := trails
  obtain ⟨pieces, rfl, silent, fit⟩ := separates.pieces
  rcases tail with rfl | ⟨body, feedless, rfl⟩
  · exact ⟨pieces, by simp, silent, by simpa using fit afterOperand [] trivial⟩
  · -- The last comment needs no line feed, for nothing stands behind it.
    have last : FitInTurn afterOperand [.lineComment ('/' :: '/' :: body)] :=
      ⟨⟨body, feedless, .inr ⟨rfl, rfl⟩⟩, trivial⟩
    exact ⟨pieces ++ [.lineComment ('/' :: '/' :: body)], by simp [Piece.text],
      by simp [silent, asLexeme?], fit afterOperand _ last⟩

/-- A lexeme that is well formed stands in front of separators, a slash in front of blanks. -/
theorem Fits.before_separator {afterOperand : Bool} {kind : Token.Kind} {text rest : List Char}
    (alone : (lexeme kind text).Fits afterOperand [])
    (starts : rest = [] ∨ StartsWith startsSeparator rest)
    (slash : text = ['/'] → rest = [] ∨ StartsWith Text.isBlank rest) :
    (lexeme kind text).Fits afterOperand rest := by
  -- Nothing behind a lexeme lets it fit as it does alone.
  rcases starts with rfl | ⟨c, more, rfl, separator⟩
  · exact alone
  · -- The first character behind the lexeme is neither a digit nor any other that lengthens it.
    obtain ⟨short, digit⟩ := lengthens_of_startsSeparator separator
    apply alone.before
    · rintro - ⟨d, later, same, long⟩
      cases same
      simp [short] at long
    · rintro - rfl ⟨d, later, same, opens⟩
      cases same
      rcases slash rfl with empty | ⟨d, later, same, spaced⟩
      · cases empty
      · cases same
        simp only [List.contains_cons, List.contains_nil, Bool.or_false, Bool.or_eq_true,
          beq_iff_eq] at opens
        rcases opens with rfl | rfl <;> revert spaced <;> decide
    · rintro - - ⟨d, later, same, numeral⟩
      cases same
      simp [digit] at numeral

/-- Lexemes that are well formed in turn are found in every text that has them spaced. -/
theorem Spaced.pieces {afterOperand : Bool} {lexemes : List (Token.Kind × List Char)}
    {text : List Char} (spaced : Spaced (lexemes.map Prod.snd) text)
    (readable : ReadInTurn afterOperand lexemes) :
    ∃ pieces : List Piece, pieces.flatMap Piece.text = text ∧
      pieces.filterMap asLexeme? = lexemes ∧ FitInTurn afterOperand pieces := by
  -- Behind the first lexeme come the pieces of the gap, and then those of the other lexemes.
  induction lexemes generalizing afterOperand text with
  | nil => exact Trails.pieces spaced afterOperand
  | cons first rest ih =>
    obtain ⟨kind, word⟩ := first
    obtain ⟨alone, later⟩ := readable
    obtain ⟨gap, more, rfl, separates, spread, apart, slash⟩ := spaced
    obtain ⟨between, rfl, silent, fit⟩ := separates.pieces
    obtain ⟨behind, rfl, same, fits⟩ := ih spread later
    have starts : between.flatMap Piece.text ++ behind.flatMap Piece.text = [] ∨
        StartsWith startsSeparator
          (between.flatMap Piece.text ++ behind.flatMap Piece.text) := by
      rcases separates.starts with empty | ⟨c, tail, filled, starts⟩
      · -- Only behind the last lexeme may the gap be empty.
        cases rest with
        | nil => simpa [empty] using Trails.starts spread
        | cons next others => exact absurd empty (apart (by simp))
      · exact .inr ⟨c, tail ++ behind.flatMap Piece.text, by simp [filled], starts⟩
    refine ⟨lexeme kind word :: (between ++ behind), by simp [Piece.text],
      by simp [asLexeme?, silent, same], ?_, fit _ _ fits⟩
    rw [List.flatMap_append]
    exact alone.before_separator starts slash

/-- A text that has the lexemes of a text without fault, however laid out, is cut into them too. -/
theorem LaidOut.pieces {pieces : List Piece} {text : List Char} (fit : FitInTurn false pieces)
    (laid : LaidOut ((pieces.filterMap asLexeme?).map Prod.snd) text) :
    ∃ others : List Piece, Cut.ofText text = ⟨others, none⟩ ∧
      others.filterMap asLexeme? = pieces.filterMap asLexeme? := by
  -- Nothing in front of the first lexeme is one, so the lexemes are those behind it.
  obtain ⟨gap, more, rfl, separates, spaced⟩ := laid
  obtain ⟨before, rfl, silent, fits⟩ := separates.pieces
  obtain ⟨others, rfl, same, turn⟩ := spaced.pieces fit.readInTurn
  refine ⟨before ++ others, ?_, by simp [silent, same]⟩
  exact (ofTextFrom_eq_iff false _ _).mpr ⟨by simp, fits false _ turn⟩

end Piece

end DoubleLang
