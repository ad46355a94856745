import DoubleLang.Proofs.Source.Lines
import DoubleLang.Proofs.Token.Fit
import DoubleLang.Token.Scan

/-!
Cutting a text into the longest pieces has one outcome at most, and scanning finds it.

How long a piece is follows from its shape, the lexeme before it and the characters behind it.
-/

namespace DoubleLang

namespace Piece

/-- The kind and the text of a lexeme. -/
def asLexeme? : Piece → Option (Token.Kind × List Char)
  | .lexeme kind text => some (kind, text)
  | _ => none

/-- Whether pieces end in an operand: a name, a number or a closing parenthesis. -/
def endsInOperand (pieces : List Piece) : Bool :=
  -- Blanks and comments are passed over, and a keyword is no name.
  match (pieces.filterMap asLexeme?).getLast? with
  | some (.identifier, _) => true
  | some (.number, _) => true
  | some (.punctuation, text) => text == [')']
  | _ => false

/-- Pieces that make up a text, each as long as it can be. -/
def Munch (text : List Char) (pieces : List Piece) : Prop :=
  pieces.flatMap Piece.text = text ∧
    ∀ before piece after, pieces = before ++ piece :: after →
      piece.Fits (endsInOperand before) (after.flatMap Piece.text)

/-- Pieces that fit one after another, from whether an operand stands before them. -/
def FitInTurn (afterOperand : Bool) : List Piece → Prop
  | [] => True
  | piece :: rest =>
    piece.Fits afterOperand (rest.flatMap Piece.text) ∧
      FitInTurn (piece.leavesOperand afterOperand) rest

/-- One more piece changes whether an operand stands last as the scan counts it. -/
private theorem endsInOperand_append (before : List Piece) (piece : Piece) :
    endsInOperand (before ++ [piece]) = piece.leavesOperand (endsInOperand before) := by
  -- A lexeme is the last one now, and any other piece leaves the last lexeme as it was.
  cases piece with
  | lexeme kind text =>
    cases kind <;> simp [endsInOperand, leavesOperand, asLexeme?, List.filterMap_append]
  | blank c => simp [endsInOperand, leavesOperand, asLexeme?, List.filterMap_append]
  | lineComment text => simp [endsInOperand, leavesOperand, asLexeme?, List.filterMap_append]
  | blockComment text => simp [endsInOperand, leavesOperand, asLexeme?, List.filterMap_append]

/-- Fitting in turn is fitting at every place. -/
private theorem fitInTurn_iff (done pieces : List Piece) :
    FitInTurn (endsInOperand done) pieces ↔
      ∀ before piece after, pieces = before ++ piece :: after →
        piece.Fits (endsInOperand (done ++ before)) (after.flatMap Piece.text) := by
  -- What stands before a piece is what was done at first and the pieces in front of it.
  induction pieces generalizing done with
  | nil => simp [FitInTurn]
  | cons first rest ih =>
    have later := ih (done ++ [first])
    rw [endsInOperand_append] at later
    rw [FitInTurn, later]
    constructor
    · -- A place is the first one, or it lies behind the first piece.
      rintro ⟨here, behind⟩ before piece after split
      cases before with
      | nil =>
        simp only [List.nil_append, List.cons.injEq] at split
        obtain ⟨rfl, rfl⟩ := split
        simpa using here
      | cons head before =>
        simp only [List.cons_append, List.cons.injEq] at split
        obtain ⟨rfl, rfl⟩ := split
        simpa using behind before piece after rfl
    · intro everywhere
      refine ⟨by simpa using everywhere [] first rest rfl, ?_⟩
      rintro before piece after rfl
      simpa using everywhere (first :: before) piece after rfl

/-- A text is cut without fault exactly into pieces that make it up and fit in turn. -/
theorem ofTextFrom_eq_iff (afterOperand : Bool) (text : List Char) (pieces : List Piece) :
    Cut.ofTextFrom 0 afterOperand text = ⟨pieces, none⟩ ↔
      pieces.flatMap Piece.text = text ∧ FitInTurn afterOperand pieces := by
  -- Both sides go on behind the first piece, which is the one that fits.
  induction pieces generalizing afterOperand text with
  | nil =>
    cases text with
    | nil => simp [Cut.ofTextFrom, FitInTurn]
    | cons c rest =>
      rw [Cut.ofTextFrom_cons]
      split <;> simp [Cut.push]
  | cons piece rest ih =>
    constructor
    · intro cut
      cases text with
      | nil => simp [Cut.ofTextFrom] at cut
      | cons c later =>
        rw [Cut.ofTextFrom_cons] at cut
        split at cut
        · simp at cut
        · -- The cut goes on behind the piece found in front, with what that piece leaves.
          rename_i found here
          simp only [Cut.push, Cut.mk.injEq, List.cons.injEq] at cut
          obtain ⟨⟨rfl, pieces⟩, fault⟩ := cut
          obtain ⟨tail, more, starts, split⟩ := front_append here
          have remains : (c :: later).drop found.text.length = more := by simp [starts, split]
          rw [remains] at pieces fault
          obtain ⟨covered, fit⟩ := (ih (found.leavesOperand afterOperand) more).mp
            (by rw [← pieces, ← fault])
          have whole : c :: later = found.text ++ more := by simp [starts, split]
          refine ⟨by simp [covered, whole], ?_, fit⟩
          rw [covered]
          exact fits_of_front here whole
    · rintro ⟨covered, here, fit⟩
      obtain ⟨c, tail, starts, found⟩ := front_of_fits here
      have whole : text = c :: (tail ++ rest.flatMap Piece.text) := by
        rw [← covered, List.flatMap_cons, starts, List.cons_append]
      have remains : text.drop piece.text.length = rest.flatMap Piece.text := by
        simp [whole, starts]
      rw [whole, Cut.ofTextFrom_cons, found]
      simp only [← whole, remains]
      rw [(ih _ _).mpr ⟨rfl, fit⟩]
      rfl

/-- A text is cut without fault exactly into its longest pieces. -/
theorem ofText_eq_iff (text : List Char) (pieces : List Piece) :
    Cut.ofText text = ⟨pieces, none⟩ ↔ Munch text pieces := by
  -- At the start nothing has been done.
  have places := fitInTurn_iff [] pieces
  simp only [List.nil_append] at places
  rw [Munch, ← places]
  exact ofTextFrom_eq_iff false text pieces

/-- A lexeme and the offset at which it starts. -/
structure Located where
  offset : Nat
  kind : Token.Kind
  text : List Char
  deriving DecidableEq, Repr

/-- The lexemes among pieces that start at an offset. -/
def lexemesFrom (offset : Nat) : List Piece → List Located
  | [] => []
  | .lexeme kind text :: rest => ⟨offset, kind, text⟩ :: lexemesFrom (offset + Text.width text) rest
  | piece :: rest => lexemesFrom (offset + Text.width piece.text) rest

/-- The token of a lexeme, its span looked up by offsets. -/
def Located.token (file : String) (table : LineTable) (found : Located) : Token :=
  ⟨found.kind, String.ofList found.text,
    table.span file found.offset (found.offset + Text.width found.text)⟩

/-- The tokens of pieces: their lexemes where the text has them, and the end of the text. -/
def tokens (file : String) (text : List Char) (pieces : List Piece) : List Token :=
  let table := LineTable.ofText text
  let stop := Text.width text
  (lexemesFrom 0 pieces).map (Located.token file table) ++
    [⟨.finish, "", table.span file stop stop⟩]

/-- Walking from piece to piece finds each lexeme where the table of lines has it. -/
private theorem place_eq (file : String) (done : List Char) (pieces : List Piece) (text : List Char)
    (whole : text = done ++ pieces.flatMap Piece.text) :
    Token.place file (Position.start.after done) pieces =
      (lexemesFrom (Text.width done) pieces).map (Located.token file (LineTable.ofText text)) := by
  -- Places are counted from piece to piece, and the table counts lines from the start.
  induction pieces generalizing done with
  | nil => rfl
  | cons piece rest ih =>
    -- What has been passed grows by the piece, and the text stays the same.
    have later := ih (done ++ piece.text) (by simp [whole])
    rw [Position.after_append, Text.width_append] at later
    have start : (LineTable.ofText text).positionAt (Text.width done) =
        Position.start.after done := by
      rw [whole, LineTable.positionAt_width]
    have stop : (LineTable.ofText text).positionAt (Text.width done + Text.width piece.text) =
        (Position.start.after done).after piece.text := by
      have behind := LineTable.positionAt_width (done ++ piece.text) (rest.flatMap Piece.text)
      rw [Text.width_append, Position.after_append, Int.natCast_add] at behind
      rw [whole, List.flatMap_cons, ← List.append_assoc, behind]
    cases piece with
    | lexeme kind word =>
      simp only [Piece.text] at later stop
      simp [Token.place, lexemesFrom, Piece.text, later, Located.token, LineTable.span, start, stop]
    | blank c => simpa [Token.place, lexemesFrom] using later
    | lineComment comment => simpa [Token.place, lexemesFrom] using later
    | blockComment comment => simpa [Token.place, lexemesFrom] using later

end Piece

/-- A scan that succeeds has the tokens of a cut without fault, and one for the end of the text. -/
theorem Token.cut_of_scan {file text : String} {tokens : List Token}
    (scanned : Token.scan file text = .ok tokens) :
    ∃ pieces, Cut.ofText text.toList = ⟨pieces, none⟩ ∧
      tokens = Token.place file .start pieces ++ [⟨.finish, "",
        ⟨file, .after .start text.toList, .after .start text.toList⟩⟩] := by
  -- A cut with a fault makes no tokens.
  unfold Token.scan at scanned
  cases fault : (Cut.ofText text.toList).fault with
  | some reason => simp [fault] at scanned
  | none =>
    have cut : Cut.ofText text.toList = ⟨(Cut.ofText text.toList).pieces, none⟩ := by rw [← fault]
    have covered := ((Piece.ofTextFrom_eq_iff false _ _).mp cut).1
    simp only [fault, Cut.covered, covered, Except.ok.injEq] at scanned
    exact ⟨_, cut, scanned.symm⟩

/-- Scanning succeeds exactly on texts with a cut into longest pieces, and gives its lexemes; there
is one such cut at most. -/
theorem Token.scan_eq_ok_iff_munch (file text : String) :
    (∀ tokens, Token.scan file text = .ok tokens ↔
      ∃ pieces, Piece.Munch text.toList pieces ∧
        tokens = Piece.tokens file text.toList pieces) ∧
    ∀ first second, Piece.Munch text.toList first → Piece.Munch text.toList second →
      first = second := by
  -- A cut into longest pieces is what the scan works on.
  have scanned : ∀ pieces, Piece.Munch text.toList pieces →
      Token.scan file text = .ok (Piece.tokens file text.toList pieces) := by
    intro pieces munch
    have cut := (Piece.ofText_eq_iff text.toList pieces).mpr munch
    have covered : pieces.flatMap Piece.text = text.toList := munch.1
    have stop : (LineTable.ofText text.toList).positionAt (Text.width text.toList) =
        Position.start.after text.toList := by
      have behind := LineTable.positionAt_width text.toList []
      rwa [List.append_nil] at behind
    have placed := Piece.place_eq file [] pieces text.toList (by simp [covered])
    simp only [Position.after_nil, Text.width_nil] at placed
    simp only [Token.scan, cut, Cut.covered, covered, placed, Piece.tokens, LineTable.span, stop]
  refine ⟨fun tokens => ⟨fun found => ?_, ?_⟩, ?_⟩
  · -- A scan that succeeds has met no fault, so its pieces are the longest ones.
    unfold Token.scan at found
    cases fault : (Cut.ofText text.toList).fault with
    | some reason => simp [fault] at found
    | none =>
      have munch := (Piece.ofText_eq_iff text.toList (Cut.ofText text.toList).pieces).mp
        (by rw [← fault])
      refine ⟨_, munch, ?_⟩
      have same := scanned _ munch
      rw [Token.scan, found] at same
      exact Except.ok.inj same
  · rintro ⟨pieces, munch, rfl⟩
    exact scanned pieces munch
  · intro first second one other
    have same := (Piece.ofText_eq_iff _ _).mpr one
    rw [(Piece.ofText_eq_iff _ _).mpr other, Cut.mk.injEq] at same
    exact same.1.symm

end DoubleLang
