import DoubleLang.Proofs.Compilation.Relocation
import DoubleLang.Proofs.Token.Layout

/-!
Compilation under another layout.

A text with the same lexemes, however they are spaced, has the same tokens at other places. The
artifacts are then the same, and so are the diagnostics but for the positions they name.
-/

namespace DoubleLang

/-- A token without its positions. -/
def Token.unplaced (token : Token) : Token :=
  token.mapSpan (Span.relocate id fun _ => .start)

/-- A diagnostic without the line and the column it may name. -/
def Diagnostic.unplaced (report : Diagnostic) : Diagnostic :=
  report.relocate id fun _ => .start

namespace Token

/-- Without their positions, the tokens of pieces are told by the lexemes. -/
theorem map_unplaced_place (file : String) (start : Position) (pieces : List Piece) :
    (place file start pieces).map unplaced =
      (pieces.filterMap Piece.asLexeme?).map fun lexeme =>
        ⟨lexeme.1, String.ofList lexeme.2, ⟨file, .start, .start⟩⟩ := by
  -- Only lexemes have tokens, and without places these are kind and text.
  induction pieces generalizing start with
  | nil => rfl
  | cons piece rest ih =>
    cases piece with
    | lexeme kind text => exact congrArg (List.cons _) (ih _)
    | _ => exact ih _

/-- The texts of tokens are those of the lexemes. -/
private theorem map_text_place (file : String) (start : Position) (pieces : List Piece) :
    (place file start pieces).map (·.text.toList) =
      (pieces.filterMap Piece.asLexeme?).map Prod.snd := by
  -- A token keeps its text when its positions are left out.
  have texts := congrArg (List.map (·.text.toList)) (map_unplaced_place file start pieces)
  simpa [List.map_map, Function.comp_def, unplaced, mapSpan] using texts

/-- A text with the lexemes of a scanned one, however laid out, has the same tokens but for their
positions. -/
private theorem scan_of_laidOut {file text other : String} {tokens : List Token}
    (scanned : scan file text = .ok tokens)
    (laid : Piece.LaidOut (tokens.dropLast.map (·.text.toList)) other.toList) :
    ∃ others, scan file other = .ok others ∧
      others.map unplaced = tokens.map unplaced := by
  -- The end of the text is the last token, and the others are its lexemes.
  obtain ⟨pieces, cut, rfl⟩ := cut_of_scan scanned
  have fit := ((Piece.ofTextFrom_eq_iff false text.toList pieces).mp cut).2
  rw [List.dropLast_concat, map_text_place] at laid
  obtain ⟨others, recut, same⟩ := laid.pieces fit
  refine ⟨_, by rw [scan, recut], ?_⟩
  simp only [List.map_append, map_unplaced_place, same]
  rfl

end Token

namespace Compilation

/-- A text with the lexemes of a scanned one, however laid out, is compiled to the same artifacts
and with the same diagnostics but for the line and the column. -/
theorem layout_is_immaterial {file text other : String} {tokens : List Token}
    (scanned : Token.scan file text = .ok tokens)
    (laid : Piece.LaidOut (tokens.dropLast.map (·.text.toList)) other.toList)
    (options : Options) (writers : Writers) :
    (ofText other options writers file).artifacts = (ofText text options writers file).artifacts ∧
      (ofText other options writers file).diagnostics.map Diagnostic.unplaced =
        (ofText text options writers file).diagnostics.map Diagnostic.unplaced := by
  -- The other text is scanned to the same tokens but for their places.
  obtain ⟨others, rescanned, same⟩ := Token.scan_of_laidOut scanned laid
  -- Tokens that differ in their positions only end in the same object or in the same report.
  have outcome : (Object.ofText file other).mapError Diagnostic.unplaced =
      (Object.ofText file text).mapError Diagnostic.unplaced := by
    have before := Object.ofTokens_relocate id (fun _ => .start) file tokens
    have after := Object.ofTokens_relocate id (fun _ => .start) file others
    rw [Object.ofText_eq, Object.ofText_eq, scanned, rescanned]
    exact after.symm.trans ((congrArg (Object.ofTokens file) same).trans before)
  unfold ofText
  rcases cases_of_mapError_eq outcome with ⟨object, recompiled, compiled⟩ |
      ⟨again, report, refused, failed, alike⟩
  · simp [recompiled, compiled]
  · simp [refused, failed, alike]

/-- Comments and blanks between the lexemes of a division, and behind the last one. -/
theorem layout_of_division_is_immaterial :
    let text := "fun f()\x7breturn 1/-2;\x7d"
    let other := "/* f */fun f/**/( ) \x7b\treturn 1 / //half\n-2 ; \x7d//end"
    ∃ tokens, Token.scan "half" text = .ok tokens ∧
      Piece.LaidOut (tokens.dropLast.map (·.text.toList)) other.toList ∧
      (ofText other {} {} "half").artifacts = (ofText text {} {} "half").artifacts ∧
      (ofText other {} {} "half").diagnostics.map Diagnostic.unplaced =
        (ofText text {} {} "half").diagnostics.map Diagnostic.unplaced := by
  -- The lexemes are found by a scan of the first text.
  intro text other
  have lexemes : (Token.scan "half" text).toOption.map
      (fun tokens => tokens.dropLast.map (·.text.toList)) =
      some (["fun", "f", "(", ")", "\x7b", "return", "1", "/", "-2", ";", "\x7d"].map
        String.toList) := by
    decide +kernel
  cases scanned : Token.scan "half" text with
  | error fault => simp [scanned, Except.toOption] at lexemes
  | ok tokens =>
    simp only [scanned, Except.toOption, Option.map_some, Option.some.injEq] at lexemes
    have laid : Piece.LaidOut (tokens.dropLast.map (·.text.toList)) other.toList := by
      rw [lexemes]
      have space : Piece.Separates " ".toList := .blank (by decide) .nothing
      have tab : Piece.Separates "\t".toList := .blank (by decide) .nothing
      have comment : Piece.Separates "/**/".toList :=
        @Piece.Separates.blockComment [] [] (by decide) .nothing
      have line : Piece.Separates " //half\n".toList := .blank (by decide)
        (@Piece.Separates.lineComment "half".toList [] (by decide) .nothing)
      have lead : Piece.Separates "/* f */".toList :=
        @Piece.Separates.blockComment " f ".toList [] (by decide) .nothing
      -- The other text is taken apart lexeme by lexeme, each behind what separates it.
      refine ⟨_, "fun f/**/( ) \x7b\treturn 1 / //half\n-2 ; \x7d//end".toList, by decide, lead, ?_⟩
      refine ⟨_, "f/**/( ) \x7b\treturn 1 / //half\n-2 ; \x7d//end".toList, by decide, space, ?_,
        by decide, by decide⟩
      refine ⟨_, "( ) \x7b\treturn 1 / //half\n-2 ; \x7d//end".toList, by decide, comment, ?_,
        by decide, by decide⟩
      refine ⟨_, ") \x7b\treturn 1 / //half\n-2 ; \x7d//end".toList, by decide, space, ?_,
        by decide, by decide⟩
      refine ⟨_, "\x7b\treturn 1 / //half\n-2 ; \x7d//end".toList, by decide, space, ?_,
        by decide, by decide⟩
      refine ⟨_, "return 1 / //half\n-2 ; \x7d//end".toList, by decide, tab, ?_,
        by decide, by decide⟩
      refine ⟨_, "1 / //half\n-2 ; \x7d//end".toList, by decide, space, ?_, by decide, by decide⟩
      refine ⟨_, "/ //half\n-2 ; \x7d//end".toList, by decide, space, ?_, by decide, by decide⟩
      refine ⟨_, "-2 ; \x7d//end".toList, by decide, line, ?_, by decide, by decide⟩
      refine ⟨_, "; \x7d//end".toList, by decide, space, ?_, by decide, by decide⟩
      refine ⟨_, "\x7d//end".toList, by decide, space, ?_, by decide, by decide⟩
      refine ⟨_, "//end".toList, by decide, .nothing, ?_, by decide, by decide⟩
      exact ⟨[], _, rfl, .nothing, .inr ⟨"end".toList, by decide, by decide⟩⟩
    exact ⟨tokens, rfl, laid, layout_is_immaterial scanned laid {} {}⟩

end Compilation

end DoubleLang
