import DoubleLang.Compilation
import DoubleLang.Proofs.Program.Checked
import DoubleLang.Proofs.Program.Soundness
import DoubleLang.Proofs.Token.Munch

/-! The functions of a program that was read from a text are named by identifiers. -/

namespace DoubleLang

/-- A token comes from a lexeme of its kind and text. -/
private theorem Token.lexeme_of_mem_place {file : String} {start : Position} {pieces : List Piece}
    {token : Token} (member : token ∈ Token.place file start pieces) :
    Piece.lexeme token.kind token.text.toList ∈ pieces := by
  -- Every token is made from the piece at its turn.
  induction pieces generalizing start with
  | nil => simp [Token.place] at member
  | cons piece rest ih =>
    simp only [Token.place] at member
    split at member
    · rcases List.mem_cons.mp member with rfl | later
      · simp
      · exact List.mem_cons_of_mem _ (ih later)
    · exact List.mem_cons_of_mem _ (ih member)

/-- Every token of a text but the last one stems from a piece that fits. -/
theorem Token.fits_of_scan {file text : String} {tokens : List Token}
    (scanned : Token.scan file text = .ok tokens) {token : Token} (member : token ∈ tokens)
    (word : token.kind ≠ .finish) :
    ∃ afterOperand rest, (Piece.lexeme token.kind token.text.toList).Fits afterOperand rest := by
  -- The text has been cut into pieces that fit, and its tokens are their lexemes.
  obtain ⟨pieces, cut, rfl⟩ := Token.cut_of_scan scanned
  have munch := (Piece.ofText_eq_iff text.toList pieces).mp cut
  -- The token is not the one that ends the input, so it stems from a piece.
  rw [List.mem_append, List.mem_singleton] at member
  rcases member with placed | rfl
  · obtain ⟨before, after, split⟩ := List.append_of_mem (lexeme_of_mem_place placed)
    exact ⟨_, _, munch.2 before _ after split⟩
  · exact absurd rfl word

/-- The identifiers among the tokens of a text are written as identifiers. -/
private theorem Token.isIdentifierText_of_scan {file text : String} {tokens : List Token}
    (scanned : Token.scan file text = .ok tokens) {token : Token} (member : token ∈ tokens)
    (named : token.isIdentifier = true) : Piece.isIdentifierText token.text.toList = true := by
  -- A piece of the kind fits only if it is written so.
  have kind : token.kind = .identifier := by simpa [Token.isIdentifier] using named
  obtain ⟨afterOperand, rest, fits⟩ := fits_of_scan scanned member (by simp [kind])
  rw [kind] at fits
  exact fits.1

/-- A declared function is named by an identifier among the tokens. -/
theorem Grammar.Declarations.named {words : List Token} {constants : List (Constant Span)}
    {functions : List (Function Span)} (declared : Declarations words constants functions) :
    ∀ function ∈ functions, ∃ token ∈ words, token.isIdentifier = true ∧
      token.text = function.name := by
  -- A declaration adds its own tokens behind those of the earlier ones.
  induction declared with
  | none => simp
  | constant first last ih =>
    intro function member
    obtain ⟨token, listed, found⟩ := ih function member
    exact ⟨token, List.mem_append_left _ listed, found⟩
  | function first last ih =>
    intro function member
    rcases List.mem_append.mp member with earlier | here
    · obtain ⟨token, listed, found⟩ := ih function earlier
      exact ⟨token, List.mem_append_left _ listed, found⟩
    · rw [List.mem_singleton] at here
      subst here
      cases last with
      | @mk keyword name _ _ _ _ _ _ _ _ _ identifier =>
        exact ⟨name, List.mem_append_right _ (by simp), identifier, rfl⟩

/-- A program that was read from a text derives from the tokens of the text. -/
theorem Program.derives_of_parse {file text : String} {program : Program Span}
    (parsed : Program.parse file text = .ok program) :
    ∃ tokens, Token.scan file text = .ok tokens ∧ Grammar.Derives file tokens program := by
  -- Both stages succeed, and the second one reads the tokens of the first.
  obtain ⟨tokens, scanned, outcome⟩ := bind_eq_ok_iff.mp parsed
  have read := mapError_eq_ok_iff.mp outcome
  obtain ⟨first, stop, later, starts, split, same⟩ :=
    Grammar.read_of_ended file (Grammar.ended_of_read read)
  obtain ⟨declared, named, spanned⟩ := Grammar.declarations_of_bind (same.symm.trans read)
  exact ⟨tokens, mapError_eq_ok_iff.mp scanned, declared, named, first, stop, later, starts, split,
    spanned⟩

/-- A program that was read from a text is declared by the tokens of the text. -/
theorem Program.declared_of_parse {file text : String} {program : Program Span}
    (parsed : Program.parse file text = .ok program) :
    ∃ tokens, Token.scan file text = .ok tokens ∧
      Grammar.Declarations (Grammar.sentence tokens) program.constants program.functions := by
  obtain ⟨tokens, scanned, derives⟩ := Program.derives_of_parse parsed
  exact ⟨tokens, scanned, derives.declared⟩

/-- A program that was read from a text has identifiers for the names of its functions. -/
theorem Program.identified_of_parse {file text : String} {program : Program Span}
    (parsed : Program.parse file text = .ok program) : program.Identified := by
  -- The name of a function is a token of the text, and such a token is written as an identifier.
  obtain ⟨tokens, scanned, declared⟩ := Program.declared_of_parse parsed
  intro function member
  obtain ⟨token, listed, named, text⟩ := declared.named function member
  rw [← text]
  exact Token.isIdentifierText_of_scan scanned ((List.takeWhile_sublist _).subset listed) named

/-- What a test finds of the program of a text, if the program keeps the rules. -/
def Program.verdict? (file text : String) (test : Program Span → Bool) : Option Bool := do
  let program ← (Program.parse file text).toOption
  let _ ← program.check.toOption
  return test program

/-- What is found of a text is found of its program, which has an environment. -/
theorem Program.exists_of_verdict? (file text : String) (test : Program Span → Bool)
    (verdict : Bool) (found : Program.verdict? file text test = some verdict) :
    ∃ program env, Program.parse file text = .ok program ∧ program.check = .ok env ∧
      test program = verdict := by
  -- There is no verdict unless both stages succeed.
  unfold Program.verdict? at found
  cases parsed : Program.parse file text with
  | error report => simp [parsed, Except.toOption] at found
  | ok program =>
    cases accepted : program.check with
    | error offence => simp [parsed, accepted, Except.toOption] at found
    | ok env =>
      simp only [parsed, accepted, Except.toOption, Option.bind_eq_bind, Option.bind_some,
        Option.pure_def, Option.some.injEq] at found
      exact ⟨program, env, rfl, accepted, found⟩

end DoubleLang
