import DoubleLang.Token.ScanInto

/-!
A scan over a log, against the cut of a text.

One turn of the scan passes over or takes the piece in front, or reports the fault that is there. So
a scan makes the tokens among the pieces of the cut, or reports the fault behind them.
-/

namespace DoubleLang

namespace Token

/-- What a scan comes to when the rest of a text is cut: the tokens among the pieces follow those so
far, or a report says where the cut stops short. -/
def conclude (file : String) (read : List Token) (place : Position) (cut : Cut) :
    Logged (List Token) :=
  let stop := place.after cut.covered
  match cut.fault with
  | some fault => reportFault file stop fault
  | none => pure (read ++ Token.place file place cut.pieces ++
      [⟨.finish, "", ⟨file, stop, stop⟩⟩])

/-- What stands last among tokens goes by the piece that was taken last. -/
private theorem endInOperand_place (file : String) (read : List Token) (place : Position)
    (piece : Piece) :
    endInOperand (read ++ Token.place file place [piece]) =
      piece.leavesOperand (endInOperand read) := by
  -- Blanks and comments have no token, so what stood last still does.
  cases piece with
  | blank c => simp [Token.place, Piece.leavesOperand]
  | lineComment text => simp [Token.place, Piece.leavesOperand]
  | blockComment text => simp [Token.place, Piece.leavesOperand]
  | lexeme kind text =>
    -- Of the marks only the closing parenthesis ends an operand.
    have closes : (String.ofList text == ")") = (text == [')']) := by
      rw [Bool.eq_iff_iff, beq_iff_eq, beq_iff_eq]
      exact ⟨fun same => by simpa using congrArg String.toList same, fun same => by rw [same]⟩
    cases kind <;>
      simp [Token.place, Piece.leavesOperand, endInOperand, isIdentifier, isNumber, isMark, closes]

/-- One turn of a scan goes by the piece in front. -/
private theorem scanOn_cons (file : String) (read : List Token) (place : Position) (c : Char)
    (rest : List Char) :
    scanOn file read place (c :: rest) =
      match Piece.front (endInOperand read) c rest with
      | .error fault => reportFault file place fault
      | .ok piece =>
        scanOn file (read ++ Token.place file place [piece]) (place.after piece.text)
          ((c :: rest).drop piece.text.length) := by
  -- Blanks are tried first, then comments, then lexemes, in the same order as in front.
  rw [scanOn]
  by_cases blank : Text.isBlank c
  · simp [Piece.front, blank, Token.place, Piece.text]
  rw [if_neg blank]
  by_cases line : ['/', '/'].isPrefixOf (c :: rest)
  · obtain ⟨more, starts⟩ := List.isPrefixOf_iff_prefix.mp line
    cases starts
    simp [Piece.front, blank, Token.place, Piece.text, Piece.throughFeed]
  rw [if_neg line]
  by_cases block : ['/', '*'].isPrefixOf (c :: rest)
  · obtain ⟨more, rfl, rfl⟩ : ∃ more, c = '/' ∧ rest = '*' :: more := by
      obtain ⟨more, starts⟩ := List.isPrefixOf_iff_prefix.mp block
      cases starts
      exact ⟨more, rfl, rfl⟩
    unfold Piece.front
    rw [if_pos block, if_neg blank]
    simp only [List.drop_succ_cons, List.drop_zero]
    cases Piece.throughClose? more with
    | none => rfl
    | some closed => simp [Token.place, Piece.text]
  rw [if_neg block]
  -- Neither a blank nor a comment stands in front, so it is a lexeme or nothing.
  have plain : Piece.front (endInOperand read) c rest =
      Piece.lexeme? (endInOperand read) c rest := by
    unfold Piece.front
    rw [if_neg blank]
    split
    · exact absurd (by simp) line
    · exact absurd (by simp) block
    · rfl
  rw [plain, Piece.lexeme?]
  cases numbered : Piece.number? (endInOperand read) (c :: rest) with
  | some number =>
    obtain ⟨filled, -⟩ := Piece.number?_append numbered
    cases number with
    | nil => exact absurd rfl filled
    | cons first tail => simp [Token.place, Piece.text]
  | none =>
    by_cases starts : Piece.startsIdentifier c
    · simp [starts, Token.place, Piece.text, Piece.word]
    by_cases operator : Piece.isOperator c
    · simp [starts, operator, Token.place, Piece.text]
    by_cases punctuation : Piece.isPunctuation c
    · simp [starts, operator, punctuation, Token.place, Piece.text]
    · simp [starts, operator, punctuation]

/-- The tokens of a piece come before those of the pieces behind it. -/
private theorem conclude_push (file : String) (read : List Token) (place : Position) (piece : Piece)
    (cut : Cut) :
    conclude file read place (cut.push piece) =
      conclude file (read ++ Token.place file place [piece]) (place.after piece.text) cut := by
  -- A piece is placed where it starts, and all others start behind it.
  have placed : Token.place file place (piece :: cut.pieces) =
      Token.place file place [piece] ++ Token.place file (place.after piece.text) cut.pieces := by
    cases piece <;> rfl
  simp only [conclude, Cut.push, Cut.covered, List.flatMap_cons, Position.after_append, placed,
    List.append_assoc]

/-- A scan comes to what the cut says. -/
private theorem scanOn_eq (file : String) (read : List Token) (place : Position)
    (text : List Char) :
    scanOn file read place text =
      conclude file read place (Cut.ofTextFrom 0 (endInOperand read) text) := by
  -- One turn takes the first piece of the cut, and the rest is cut from there.
  cases text with
  | nil =>
    rw [scanOn]
    simp [conclude, Cut.ofTextFrom, Cut.covered, Token.place]
  | cons c rest =>
    rw [scanOn_cons, Cut.ofTextFrom_cons]
    cases found : Piece.front (endInOperand read) c rest with
    | error fault => rfl
    | ok piece =>
      -- What is behind the piece is shorter, as the piece has the character in hand.
      obtain ⟨tail, more, starts, split⟩ := Piece.front_append found
      have shorter : ((c :: rest).drop piece.text.length).length < (c :: rest).length := by
        simp only [starts, List.length_drop, List.length_cons]
        omega
      simp only [conclude_push]
      rw [scanOn_eq, endInOperand_place]
termination_by text.length
decreasing_by exact shorter

/-- A scan over a log makes the tokens of a text, or adds the report of its fault. -/
theorem scanInto_eq (file text : String) :
    scanInto file text = .ofExcept ((scan file text).mapError (·.diagnostic file)) := by
  -- A scan starts with no tokens, at the start.
  rw [scanInto, scanOn_eq, scan, conclude]
  -- Both look for a fault in the same cut.
  change (match (Cut.ofText text.toList).fault with
    | some fault => _
    | none => _) = _
  cases (Cut.ofText text.toList).fault with
  | none => rfl
  | some fault => rfl

end Token

end DoubleLang
