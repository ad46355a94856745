import DoubleLang.Proofs.Compilation.Layout
import DoubleLang.Proofs.Program.Words

/-!
Programs that are written and read again.

A normal program is written without a space but behind its keywords, and it is read back from that
text as it was, except for the places of its nodes. Only normal programs are ever read.
-/

namespace DoubleLang

/-- Words in turn are the tokens of the text that is written for them. -/
private theorem Token.scan_writtenAll (file : String) {words : List Word}
    (turn : Word.InTurn false words) :
    ∃ tokens, Token.scan file (Word.writtenAll words) = .ok tokens ∧
      tokens.map Token.unplaced =
        Word.tokens ⟨file, .start, .start⟩ words ++ [⟨.finish, "", ⟨file, .start, .start⟩⟩] := by
  -- The lexemes of the cut are the words, and all else about a token is its place.
  refine ⟨_, by rw [Token.scan, turn.cut], ?_⟩
  rw [List.map_append, Token.map_unplaced_place, Word.lexemes_pieces]
  simp [Word.tokens, Word.token, Function.comp_def]
  rfl

/-- No word in turn ends the input. -/
theorem Word.InTurn.kind_ne_finish {afterOperand : Bool} {words : List Word}
    (turn : Word.InTurn afterOperand words) : ∀ word ∈ words, word.1 ≠ .finish := by
  -- No lexeme is of that kind.
  induction words generalizing afterOperand with
  | nil => simp
  | cons first rest ih =>
    obtain ⟨shape, -, later⟩ := turn
    intro word member
    rcases List.mem_cons.mp member with rfl | behind
    · intro finish
      obtain ⟨kind, text⟩ := word
      subst finish
      exact shape
    · exact ih later word behind

namespace Program

variable {α : Type}

/-- A program without its notes. -/
def bare (program : Program α) : Program Unit :=
  program.mapNotes fun _ => ()

/-- Notes that are left out need not be changed before. -/
private theorem bare_mapNotes {β : Type} (change : α → β) (program : Program α) :
    (program.mapNotes change).bare = program.bare :=
  Program.mapNotes_mapNotes _ _ program

/-- Declarations at one place are read as the program they declare. -/
private theorem read_of_declarations (file : String) {here : Span} (still : here.join here = here)
    {words : List Word} (proper : ∀ word ∈ words, word.1 ≠ .finish)
    {constants : List (Constant Span)} {functions : List (Function Span)}
    (declared : Grammar.Declarations (Word.tokens here words) constants functions) :
    Program.read file (Word.tokens here words ++ [⟨.finish, "", here⟩]) =
      .ok ⟨here, file, constants, functions⟩ := by
  -- All tokens are at one place, so that all spans are the same.
  let tokens := Word.tokens here words ++ [⟨.finish, "", here⟩]
  have plain : ∀ token ∈ Word.tokens here words, token.span = here ∧ token.kind ≠ .finish := by
    intro token member
    obtain ⟨word, listed, rfl⟩ := List.mem_map.mp member
    exact ⟨rfl, proper word listed⟩
  have placed : ∀ token ∈ tokens, token.span = here := by
    intro token member
    rcases List.mem_append.mp member with inside | last
    · exact (plain token inside).1
    · rw [List.mem_singleton.mp last]
  have sentence : Grammar.sentence tokens = Word.tokens here words := by
    have passed : ∀ token ∈ Word.tokens here words, (token.kind != .finish) = true := by
      intro token member
      simpa using (plain token member).2
    simp [Grammar.sentence, tokens, List.takeWhile_append_of_pos passed]
  have ended : Grammar.Ended tokens := ⟨_, _, rfl, rfl⟩
  obtain ⟨first, stop, later, starts, split, read⟩ := Grammar.read_of_ended file ended
  -- The first token and the one behind the sentence stand at the same place as all others.
  have opened : first.span = here := placed first (List.mem_of_head? starts)
  have closed : stop.span = here := placed stop (by rw [split]; simp)
  rw [read, sentence, Grammar.steps_start_iff.mpr declared]
  simp [Except.bind, Reading.finish, opened, closed, still]

/-- A text is read as what the words among its tokens declare, except for the places of nodes. -/
theorem bare_of_scan {file text : String} {tokens : List Token} {words : List Word}
    (scanned : Token.scan file text = .ok tokens)
    (unplaced : tokens.map Token.unplaced =
      Word.tokens ⟨file, .start, .start⟩ words ++ [⟨.finish, "", ⟨file, .start, .start⟩⟩])
    (proper : ∀ word ∈ words, word.1 ≠ .finish)
    {constants : List (Constant Span)} {functions : List (Function Span)}
    (declared :
      Grammar.Declarations (Word.tokens ⟨file, .start, .start⟩ words) constants functions) :
    ∃ parsed, Program.parse file text = .ok parsed ∧
      parsed.bare = (⟨⟨file, .start, .start⟩, file, constants, functions⟩ : Program Span).bare := by
  -- Tokens are read alike wherever they stand, and so they may stand at the start.
  have moved : Program.read file (tokens.map Token.unplaced) =
      ((Program.read file tokens).map
        (Program.mapNotes (Span.relocate id fun _ => .start))).mapError _ :=
    Program.read_mapSpan (fun _ _ => rfl) file tokens
  rw [unplaced, read_of_declarations file rfl proper declared] at moved
  cases outcome : Program.read file tokens with
  | error refusal =>
    rw [outcome] at moved
    cases moved
  | ok parsed =>
    rw [outcome] at moved
    have read : Program.parse file text = .ok parsed := by
      rw [Program.parse, scanned]
      simp only [Except.mapError, bind, Except.bind, outcome]
    exact ⟨parsed, read, by rw [Except.ok.inj moved, bare_mapNotes]⟩

/-- A normal program is read back from its text, except for the places of its nodes. -/
private theorem bare_of_parse_written {program : Program α} {order : List (Declaration α)}
    (normal : program.Normal) (declared : program.DeclaredAs order) :
    ∃ parsed, Program.parse program.file (Declaration.written order) = .ok parsed ∧
      parsed.bare = program.bare := by
  -- All words are put at one place, for places do not matter here.
  let here : Span := ⟨program.file, .start, .start⟩
  have turn := Program.inTurn_words normal declared
  obtain ⟨tokens, scanned, unplaced⟩ := Token.scan_writtenAll program.file turn
  -- Without their positions the tokens are the words, which derive the program.
  have derived := @Declaration.declarations_of_normal α here rfl order
    (by simpa [declared.functions] using normal.functions)
  rw [declared.constants, declared.functions] at derived
  obtain ⟨parsed, read, same⟩ := bare_of_scan scanned unplaced turn.kind_ne_finish derived
  exact ⟨parsed, read, same.trans (bare_mapNotes (fun _ => here) program)⟩

/-- Every program can be declared in some order: constants first. -/
private theorem exists_declaredAs (program : Program α) : ∃ order, program.DeclaredAs order := by
  -- Each of the two filters passes its own part and leaves out the other.
  refine ⟨program.constants.map .constant ++ program.functions.map .function, ?_, ?_⟩
  · simp [List.filterMap_map, Function.comp_def, Declaration.constant?]
  · simp [List.filterMap_map, Function.comp_def, Declaration.function?]

/-- Writing and reading are inverse: a normal program is read back from its text as it was but for
the places of its nodes, and every program that is read is normal. -/
theorem parsing_inverts_writing (α : Type) :
    (∀ program : Program α, program.Normal →
      (∃ order, program.DeclaredAs order) ∧
      ∀ order, program.DeclaredAs order →
        ∃ parsed, Program.parse program.file (Declaration.written order) = .ok parsed ∧
          parsed.bare = program.bare) ∧
    ∀ file text program, Program.parse file text = .ok program → program.Normal :=
  ⟨fun program normal =>
      ⟨program.exists_declaredAs, fun _ declared => bare_of_parse_written normal declared⟩,
    fun _ _ _ parsed => Program.normal_of_parse parsed⟩

/-- Signs behind operations, parentheses and commas are read back as signs. -/
theorem parsing_inverts_writing_of_signs :
    let a : Expr Unit := .name () "a"
    let call : Expr Unit := .call () "f" [.literal () "1", .literal () "-2"]
    let function : Function Unit := ⟨(), "f", [⟨(), "a"⟩, ⟨(), "b"⟩],
      [.assign () "t" (.binary () .subtract a (.literal () "-1")),
        .returns () (.binary () .subtract (.group () a)
          (.binary () .divide (.literal () "3") call))]⟩
    let program : Program Unit := ⟨(), "signs", [⟨(), "k", "-0.5"⟩], [function]⟩
    let order : List (Declaration Unit) := [.function function, .constant ⟨(), "k", "-0.5"⟩]
    program.Normal ∧ program.DeclaredAs order ∧
      Declaration.written order =
        "fun f(a,b)\x7bt=a--1;return (a)-3/f(1,-2);\x7dk=-0.5;" ∧
      ∃ parsed, Program.parse "signs" (Declaration.written order) = .ok parsed ∧
        parsed.bare = program.bare ∧ parsed.Normal := by
  -- The program is written out, so that its form can be checked.
  intro a call function program order
  have normal : program.Normal := by decide +kernel
  have declared : program.DeclaredAs order := ⟨rfl, rfl⟩
  refine ⟨normal, declared, by decide +kernel, ?_⟩
  obtain ⟨parsed, read, same⟩ := ((parsing_inverts_writing Unit).1 program normal).2 order declared
  exact ⟨parsed, read, same, (parsing_inverts_writing Unit).2 _ _ parsed read⟩

end Program

end DoubleLang
