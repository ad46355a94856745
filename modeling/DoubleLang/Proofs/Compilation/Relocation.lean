import DoubleLang.Compilation
import DoubleLang.Proofs.Object.Notes
import DoubleLang.Proofs.Program.Relocation

/-!
Compilation under a change of places.

Tokens at other places, in another file, are compiled to the same object; if they are not, the same
report is made for the other place and the other file.
-/

namespace DoubleLang

/-- A span in another file, between other positions. -/
def Span.relocate (rename : String → String) (move : Position → Position) (span : Span) : Span :=
  ⟨rename span.file, move span.start, move span.stop⟩

/-- A diagnostic for another file, and for another position if it has one. -/
def Diagnostic.relocate (rename : String → String) (move : Position → Position)
    (report : Diagnostic) : Diagnostic :=
  { report with file := rename report.file, place := report.place.map move }

/-- The compiled form of tokens, or the report of the first error. -/
def Object.ofTokens (file : String) (tokens : List Token) : Except Diagnostic Object := do
  let program ← (Program.read file tokens).mapError (·.diagnostic file)
  let env ← program.environment
  (Object.ofProgram env program).mapError fun missing =>
    ⟨.unclassified, .error, missing.message, file, none⟩

/-- A text is compiled through its tokens. -/
theorem Object.ofText_eq (file text : String) :
    Object.ofText file text =
      (Token.scan file text).mapError (·.diagnostic file) >>= Object.ofTokens file := by
  -- A text that cannot be scanned has its report from there.
  rw [Object.ofText, Program.parse]
  cases Token.scan file text with
  | error fault => rfl
  | ok tokens => rfl

/-- A program with another name for its file. -/
def Program.inFile (rename : String → String) (program : Program Span) : Program Span :=
  { program with file := rename program.file }

/-- The name of the file is put into the program, and has no other part in reading. -/
private theorem Program.read_inFile (rename : String → String) (file : String)
    (tokens : List Token) :
    Program.read (rename file) tokens =
      (Program.read file tokens).map (Program.inFile rename) := by
  -- The file is asked for when all tokens are read, and at no time before.
  have finish (reading : Reading) (first stop : Token) :
      reading.finish (rename file) first stop =
        (reading.finish file first stop).map (Program.inFile rename) := by
    obtain ⟨constants, functions, state⟩ := reading
    cases state <;> rfl
  unfold Program.read
  split
  · rename_i first rest stop _
    split
    · cases Reading.start.steps ((first :: rest).takeWhile (! ·.isFinish)) with
      | error refusal => rfl
      | ok reading => exact finish reading first stop
    · rfl
  · rfl

section

variable (rename : String → String) (move : Position → Position)

/-- A refusal at another place is reported for it. -/
theorem Refusal.diagnostic_relocate (file : String) (refusal : Refusal) :
    (refusal.mapSpan (Span.relocate rename move)).diagnostic (rename file) =
      (refusal.diagnostic file).relocate rename move := by
  cases refusal <;> rfl

/-- An offence at another place is reported for it. -/
theorem Offence.diagnostic_relocate (offence : Offence) :
    (offence.mapSpan (Span.relocate rename move)).diagnostic =
      offence.diagnostic.relocate rename move := rfl

/-- Tokens at other places are compiled alike. -/
theorem Object.ofTokens_relocate (file : String) (tokens : List Token) :
    Object.ofTokens (rename file) (tokens.map (Token.mapSpan (Span.relocate rename move))) =
      (Object.ofTokens file tokens).mapError (Diagnostic.relocate rename move) := by
  -- To move the ends of a span is to move the span.
  have joins (first last : Span) : (first.join last).relocate rename move =
      (first.relocate rename move).join (last.relocate rename move) := rfl
  rw [Object.ofTokens, Program.read_inFile, Program.read_mapSpan joins, Object.ofTokens]
  -- The stages come in turn, and each ends alike for both.
  cases Program.read file tokens with
  | error refusal =>
    exact congrArg Except.error (refusal.diagnostic_relocate rename move file)
  | ok program =>
    have judged : ((program.mapNotes (Span.relocate rename move)).inFile rename).check =
        program.check.mapError (Offence.mapSpan (Span.relocate rename move)) :=
      Program.check_mapNotes _ program
    have compiled (env : Environment) :
        Object.ofProgram env ((program.mapNotes (Span.relocate rename move)).inFile rename) =
          Object.ofProgram env program :=
      Object.ofProgram_mapNotes _ env program
    simp only [Except.map, Except.mapError, bind, Except.bind, Program.environment, judged,
      compiled]
    cases program.check with
    | error offence => exact congrArg Except.error (offence.diagnostic_relocate rename move)
    | ok env =>
      simp only
      cases Object.ofProgram env program with
      | error missing => rfl
      | ok object => rfl

end

/-- Lexemes are placed alike in a file of another name. -/
theorem Token.place_rename (rename : String → String) (file : String) (start : Position)
    (pieces : List Piece) :
    Token.place (rename file) start pieces =
      (Token.place file start pieces).map (Token.mapSpan (Span.relocate rename id)) := by
  -- A place counts characters, and those are the same in any file.
  induction pieces generalizing start with
  | nil => rfl
  | cons piece rest ih =>
    cases piece with
    | lexeme kind text => exact congrArg (List.cons _) (ih _)
    | _ => exact ih _

/-- A text is compiled alike in a file of another name. -/
theorem Object.ofText_rename (rename : String → String) (file text : String) :
    Object.ofText (rename file) text =
      (Object.ofText file text).mapError (Diagnostic.relocate rename id) := by
  -- Where a text cannot be cut, the fault is at the same place.
  rw [Object.ofText_eq, Object.ofText_eq, Token.scan, Token.scan]
  cases (Cut.ofText text.toList).fault with
  | some fault => rfl
  | none =>
    -- The tokens are the same but for the name of the file in their spans.
    have tokens := Object.ofTokens_relocate rename id file
      (Token.place file .start (Cut.ofText text.toList).pieces ++
        [⟨.finish, "", ⟨file, Position.start.after (Cut.ofText text.toList).covered,
          Position.start.after (Cut.ofText text.toList).covered⟩⟩])
    rw [List.map_append, ← Token.place_rename] at tokens
    exact tokens

end DoubleLang
