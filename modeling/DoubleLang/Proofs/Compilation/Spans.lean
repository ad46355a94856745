import DoubleLang.Proofs.Compilation.RoundTrip
import DoubleLang.Proofs.Program.Nodes
import DoubleLang.Proofs.Program.Parsed

/-!
Spans cut out what they belong to.

The span of a node bounds the tokens it was read from, and the spans below it lie inside, one behind
another. The text under the span of an expression, returned from a function of its own, is read as
the same expression again.
-/

namespace DoubleLang

namespace Grammar

section Moved

variable {change : Span → Span}

mutual

/-- A factor derives from its tokens wherever they stand. -/
theorem Factor.mapSpan {words : List Token} {expr : Expr Span}
    (joins : ∀ first last : Span, change (first.join last) = (change first).join (change last)) :
    Factor words expr → Factor (words.map (Token.mapSpan change)) (expr.mapNotes change)
  | @Factor.number token read => @Factor.number (token.mapSpan change) read
  | @Factor.name token read => @Factor.name (token.mapSpan change) read
  | .callEmpty named opens closes => by
    simp only [Expr.mapNotes, Expr.mapNotesOfAll_eq, joins]
    exact .callEmpty named opens closes
  | .call named opens inside closes => by
    simp only [Expr.mapNotes, Expr.mapNotesOfAll_eq, joins, List.map_cons, List.map_append]
    exact .call named opens (inside.mapSpan joins) closes
  | .group opens inside closes => by
    simp only [Expr.mapNotes, joins, List.map_cons, List.map_append]
    exact .group opens (inside.mapSpan joins) closes

/-- A term derives from its tokens wherever they stand. -/
theorem Term.mapSpan {words : List Token} {expr : Expr Span}
    (joins : ∀ first last : Span, change (first.join last) = (change first).join (change last)) :
    Term words expr → Term (words.map (Token.mapSpan change)) (expr.mapNotes change)
  | .factor only => .factor (only.mapSpan joins)
  | @Term.operation _ _ left right sign op first signed tight last => by
    have moved : IsSign (sign.mapSpan change) op := signed
    simp only [Expr.mapNotes, joins, List.map_cons, List.map_append]
    rw [← Expr.note_mapNotes change left, ← Expr.note_mapNotes change right]
    exact .operation (first.mapSpan joins) moved tight (last.mapSpan joins)

/-- An expression derives from its tokens wherever they stand. -/
theorem Sum.mapSpan {words : List Token} {expr : Expr Span}
    (joins : ∀ first last : Span, change (first.join last) = (change first).join (change last)) :
    Sum words expr → Sum (words.map (Token.mapSpan change)) (expr.mapNotes change)
  | .term only => .term (only.mapSpan joins)
  | @Sum.operation _ _ left right sign op first signed loose last => by
    have moved : IsSign (sign.mapSpan change) op := signed
    simp only [Expr.mapNotes, joins, List.map_cons, List.map_append]
    rw [← Expr.note_mapNotes change left, ← Expr.note_mapNotes change right]
    exact .operation (first.mapSpan joins) moved loose (last.mapSpan joins)

/-- Arguments derive from their tokens wherever they stand. -/
theorem Arguments.mapSpan {words : List Token} {args : List (Expr Span)}
    (joins : ∀ first last : Span, change (first.join last) = (change first).join (change last)) :
    Arguments words args →
      Arguments (words.map (Token.mapSpan change)) (args.map (Expr.mapNotes change))
  | .one only => .one (only.mapSpan joins)
  | .more first divides last => by
    simp only [List.map_cons, List.map_append]
    exact .more (first.mapSpan joins) divides (last.mapSpan joins)

end

end Moved

/-- No factor starts with the sign of an operation. -/
theorem Factor.starts {words : List Token} {expr : Expr Span} (read : Factor words expr) :
    ∃ first rest, words = first :: rest ∧ first.kind ≠ .operator := by
  -- A number, a name and a parenthesis are of other kinds.
  cases read with
  | @number token read => exact ⟨token, _, rfl, by simp_all [Token.isNumber]⟩
  | @name token read => exact ⟨token, _, rfl, by simp_all [Token.isIdentifier]⟩
  | @callEmpty callee _ _ named => exact ⟨callee, _, rfl, by simp_all [Token.isIdentifier]⟩
  | @call callee _ _ _ _ named => exact ⟨callee, _, rfl, by simp_all [Token.isIdentifier]⟩
  | @group opening _ _ _ opens => exact ⟨opening, _, rfl, by simp_all [Token.isMark]⟩

/-- No term starts with the sign of an operation. -/
theorem Term.starts {words : List Token} {expr : Expr Span} :
    Term words expr → ∃ first rest, words = first :: rest ∧ first.kind ≠ .operator
  | .factor only => only.starts
  | .operation read _ _ _ => by
    obtain ⟨first, rest, rfl, plain⟩ := read.starts
    exact ⟨first, _, rfl, plain⟩

/-- No expression starts with the sign of an operation. -/
theorem Sum.starts {words : List Token} {expr : Expr Span} :
    Sum words expr → ∃ first rest, words = first :: rest ∧ first.kind ≠ .operator
  | .term only => only.starts
  | .operation read _ _ _ => by
    obtain ⟨first, rest, rfl, plain⟩ := read.starts
    exact ⟨first, _, rfl, plain⟩

end Grammar

/-- A text of one function, which returns what a text says. -/
def Text.returning (value : List Char) : String :=
  "fun f() \x7b return " ++ String.ofList value ++ "; \x7d"

/-- The characters of a function that returns a value. -/
private theorem Text.toList_returning (value : List Char) :
    (Text.returning value).toList =
      "fun f() \x7b return ".toList ++ (value ++ "; \x7d".toList) := by
  -- Both ends are fixed.
  unfold Text.returning
  rw [String.toList_append, String.toList_append, List.append_assoc]
  -- A literal is not to be unfolded, so the two ends are left alone.
  congr 2
  exact String.toList_ofList

/-- The words of one function that returns what words say. -/
def Word.returning (value : List Word) : List Word :=
  (.keyword, "fun") :: (.identifier, "f") :: .mark "(" :: .mark ")" :: .mark "\x7b" ::
    (.keyword, "return") :: (value ++ [.mark ";", .mark "\x7d"])

namespace Piece

/-- The pieces in front of what is returned. -/
def opening : List Piece :=
  [.lexeme .keyword "fun".toList, .blank ' ', .lexeme .identifier ['f'],
    .lexeme .punctuation ['('], .lexeme .punctuation [')'], .blank ' ',
    .lexeme .punctuation ['\x7b'], .blank ' ', .lexeme .keyword "return".toList]

/-- The pieces behind what is returned. -/
def closing : List Piece :=
  [.lexeme .punctuation [';'], .blank ' ', .lexeme .punctuation ['\x7d']]

/-- What is returned starts where no operand stands before it. -/
theorem FitInTurn.opening {pieces : List Piece} (fit : FitInTurn false pieces) :
    FitInTurn false (Piece.opening ++ .blank ' ' :: pieces) := by
  -- The blank in front ends whatever stands before it.
  have alone : FitInTurn false (Piece.opening ++ .blank ' ' :: []) := by
    have cut : Cut.ofText "fun f() \x7b return ".toList =
        ⟨Piece.opening ++ .blank ' ' :: [], none⟩ := by decide
    exact ((ofTextFrom_eq_iff false _ _).mp cut).2
  exact alone.exchange (fun _ spaced => spaced) fit

/-- Lexemes end before what stands behind a returned value. -/
theorem FitInTurn.closing {afterOperand : Bool} {front rest : List Piece} {kind : Token.Kind}
    {text : List Char} (fit : FitInTurn afterOperand (front ++ .lexeme kind text :: rest)) :
    FitInTurn afterOperand (front ++ .lexeme kind text :: Piece.closing) := by
  -- A semicolon continues no lexeme.
  have start (belongs : Char → Bool) (out : belongs ';' = false) :
      ¬ StartsWith belongs (Piece.closing.flatMap Piece.text) := by
    intro ⟨c, tail, split, member⟩
    cases split
    simp [out] at member
  apply fit.exchange
  · intro before fits
    -- Identifiers, numbers and operations each ask for other characters.
    apply fits.alone.before
    · intro _
      exact start _ (by decide)
    · intro _ _
      exact start _ (by decide)
    · intro _ _ digit
      exact absurd digit (start _ (by decide))
  · exact ⟨⟨';', rfl, by decide⟩, show Text.isBlank ' ' = true by decide,
      ⟨'\x7d', rfl, by decide⟩, trivial⟩

end Piece

/-- Pieces that start with a lexeme other than an operation and end in a lexeme are the value of a
function that returns their text. -/
private theorem Token.scan_returning (file : String) {afterOperand : Bool}
    {middle rest : List Piece}
    (fit : Piece.FitInTurn afterOperand (middle ++ rest)) {first last : Token}
    {behind before : List Piece} (opens : middle = first.piece :: behind)
    (plain : first.kind ≠ .operator) (closes : middle = before ++ [last.piece]) :
    ∃ tokens, Token.scan file (Text.returning (middle.flatMap Piece.text)) = .ok tokens ∧
      tokens.map Token.unplaced = Word.tokens ⟨file, .start, .start⟩
        (Word.returning ((middle.filterMap Piece.asLexeme?).map
          fun lexeme => (lexeme.1, String.ofList lexeme.2))) ++
          [⟨.finish, "", ⟨file, .start, .start⟩⟩] := by
  -- The lexemes fit with another text behind them, and then with another one before.
  have closed : Piece.FitInTurn afterOperand (middle ++ Piece.closing) := by
    rw [closes, List.append_assoc] at fit ⊢
    exact fit.closing
  -- What stood before the first lexeme does not matter to it.
  have free : Piece.FitInTurn false (middle ++ Piece.closing) := by
    rw [opens] at closed ⊢
    have same : first.piece.leavesOperand false = first.piece.leavesOperand afterOperand := by
      unfold Token.piece
      cases first.kind <;> rfl
    exact ⟨Piece.Fits.without_operand closed.1 plain, same ▸ closed.2⟩
  have covered : (Piece.opening ++ .blank ' ' :: (middle ++ Piece.closing)).flatMap Piece.text =
      (Text.returning (middle.flatMap Piece.text)).toList := by
    have front : (Piece.opening ++ [Piece.blank ' ']).flatMap Piece.text =
        "fun f() \x7b return ".toList := by decide
    have back : Piece.closing.flatMap Piece.text = "; \x7d".toList := by decide
    rw [Text.toList_returning, ← front, ← back]
    simp
  have cut := (Piece.ofTextFrom_eq_iff false _ _).mpr ⟨covered, Piece.FitInTurn.opening free⟩
  refine ⟨_, by rw [Token.scan, Cut.ofText, cut], ?_⟩
  -- The lexemes around the value are the words around it.
  have front : Piece.opening.filterMap Piece.asLexeme? =
      [(.keyword, "fun".toList), (.identifier, "f".toList), (.punctuation, "(".toList),
        (.punctuation, ")".toList), (.punctuation, "\x7b".toList),
        (.keyword, "return".toList)] := rfl
  have back : Piece.closing.filterMap Piece.asLexeme? =
      [(.punctuation, ";".toList), (.punctuation, "\x7d".toList)] := rfl
  rw [List.map_append, Token.map_unplaced_place, List.filterMap_append,
    List.filterMap_cons_none (by rfl), List.filterMap_append, front, back]
  simp [Word.tokens, Word.returning, Word.token, Word.mark, Function.comp_def]
  rfl

/-- A returned expression makes a program of one function. -/
private theorem Grammar.declarations_returning {here : Span} (still : here.join here = here)
    {words : List Word} {expr : Expr Span} (read : Sum (Word.tokens here words) expr) :
    Declarations (Word.tokens here (Word.returning words)) []
      [⟨here, "f", [], [.returns here expr]⟩] := by
  -- The declaration is put together from its words.
  have step := @Step.returns (Word.token here (.keyword, "return")) (Word.token here (.mark ";"))
    _ _ rfl read rfl
  have function := @FunctionDeclaration.mk (Word.token here (.keyword, "fun"))
    (Word.token here (.identifier, "f")) (Word.token here (.mark "("))
    (Word.token here (.mark ")")) (Word.token here (.mark "\x7b"))
    (Word.token here (.mark "\x7d")) _ _ _ _ rfl rfl rfl .none rfl rfl (.more .none step) rfl
  simpa [Word.tokens, Word.returning, Word.token, still] using Declarations.none.function function

/-- An expression that was read from a text is read again from the text under its span. -/
private theorem Expr.parse_returning {file text : String} {pieces : List Piece}
    (cut : Cut.ofText text.toList = ⟨pieces, none⟩) {before words after : List Token}
    (split : Token.place file .start pieces = before ++ (words ++ after)) {expr : Expr Span}
    (read : Grammar.Sum words expr) (other : String) :
    ∃ parsed, Program.parse other (Text.returning
        (Text.slice expr.note.start.offset expr.note.stop.offset text.toList)) = .ok parsed ∧
      parsed.bare =
        ⟨(), other, [], [⟨(), "f", [], [.returns () (expr.mapNotes fun _ => ())]⟩]⟩ := by
  -- All words of the new text are at one place, so that only their kinds and texts count.
  let here : Span := ⟨other, .start, .start⟩
  let value : List Word := words.map fun word => (word.kind, word.text)
  obtain ⟨covered, fit⟩ := (Piece.ofTextFrom_eq_iff false _ _).mp cut
  have proper : ∀ word ∈ Word.returning value, word.1 ≠ .finish := by
    have inside : ∀ word ∈ value, word.1 ≠ .finish := by
      refine List.forall_mem_map.mpr fun word member => ?_
      exact Token.kind_ne_finish file cut word (by simp [split, member])
    simp only [Word.returning, List.forall_mem_cons, List.forall_mem_append]
    exact ⟨by decide, by decide, by decide, by decide, by decide, by decide, inside, by decide⟩
  obtain ⟨front, middle, behind, rfl, lexemes, starts, stops, ⟨first, tail, head, opens⟩, last,
    init, closes⟩ := Token.place_stretch split read.bounds
  -- An expression starts with an operand, and a sign in front belongs to its number.
  have plain : first.kind ≠ .operator := by
    obtain ⟨_, rest, rfl, plain⟩ := read.starts
    cases head
    exact plain
  -- The text under the span is that of the pieces in the middle.
  have slice : Text.slice expr.note.start.offset expr.note.stop.offset text.toList =
      middle.flatMap Piece.text := by
    have under := Text.slice_width (front.flatMap Piece.text) (middle.flatMap Piece.text)
      (behind.flatMap Piece.text)
    rw [starts, stops, Position.offset_after, Position.offset_after, ← covered]
    simpa [Position.start] using under
  obtain ⟨tokens, scanned, unplaced⟩ :=
    Token.scan_returning other fit.behind opens plain closes
  have same : (middle.filterMap Piece.asLexeme?).map
      (fun lexeme => (lexeme.1, String.ofList lexeme.2)) = value := by
    simp [lexemes, value, Function.comp_def]
  rw [same] at unplaced
  -- The words of the expression derive it at any place.
  have moved : Grammar.Sum (Word.tokens here value) (expr.mapNotes fun _ => here) := by
    have placed : words.map (Token.mapSpan fun _ => here) = Word.tokens here value := by
      rw [Word.tokens, List.map_map]
      rfl
    rw [← placed]
    exact read.mapSpan fun _ _ => rfl
  obtain ⟨parsed, reread, bare⟩ := Program.bare_of_scan scanned unplaced proper
    (Grammar.declarations_returning rfl moved)
  rw [slice]
  refine ⟨parsed, reread, bare.trans ?_⟩
  simp [Program.bare, Program.mapNotes, Function.mapNotes, Statement.mapNotes,
    Expr.mapNotes_mapNotes]

/-- The span of a node bounds the tokens that the node was read from, and the spans right below it
lie inside, one behind another. -/
structure Node.CutOut (node : Node) (tokens : List Token) : Prop where
  bounds : ∃ before own after, tokens = before ++ (own ++ after) ∧ node.ReadFrom own ∧
    node.span.Bounds own
  within : ∀ child ∈ node.children, child.span.Within node.span
  apart : node.children.Pairwise fun first second => first.span.Precedes second.span

/-- A node that is read from some of the tokens in order is cut out by its span. -/
private theorem Node.ReadFrom.cutOut {node : Node} {before own after : List Token}
    (read : node.ReadFrom own) (order : Token.InOrder (before ++ (own ++ after))) :
    node.CutOut (before ++ (own ++ after)) := by
  -- What is read below a node is read from some of its tokens.
  refine ⟨⟨before, own, after, rfl, read, read.bounds⟩, fun child listed => ?_,
    read.children.pairwise order.part⟩
  obtain ⟨front, inner, behind, rfl, found⟩ := read.children.of_mem listed
  exact read.bounds.within_of_part found.bounds order.part

/-- The tokens in front of the end of a text are all but the last. -/
private theorem Grammar.sentence_of_cut {file text : String} {pieces : List Piece}
    (cut : Cut.ofText text.toList = ⟨pieces, none⟩) (stop : Span) :
    sentence (Token.place file .start pieces ++ [⟨.finish, "", stop⟩]) =
      Token.place file .start pieces := by
  -- Only the token at the end is of the kind that ends the input.
  have passed : ∀ token ∈ Token.place file .start pieces, (token.kind != .finish) = true := by
    intro token member
    simpa using Token.kind_ne_finish file cut token member
  simp [sentence, List.takeWhile_append_of_pos passed]

/-- The span of a program bounds all tokens of its text. -/
theorem Grammar.Derives.bounds {file text : String} {program : Program Span} {pieces : List Piece}
    (cut : Cut.ofText text.toList = ⟨pieces, none⟩) {stop : Span}
    (derives : Derives file (Token.place file .start pieces ++ [⟨.finish, "", stop⟩]) program) :
    program.note.Bounds (Token.place file .start pieces ++ [⟨.finish, "", stop⟩]) := by
  -- The span of a program goes from its first token to the end of the input.
  obtain ⟨first, last, later, starts, split, spanned⟩ := derives.spanned
  rw [sentence_of_cut cut] at split
  obtain ⟨rfl, -⟩ := List.cons.inj (List.append_cancel_left split)
  exact ⟨first, _, starts, by simp, spanned⟩

/-- Spans cut out what they belong to, in every text that is read. Each node bounds the tokens it
was read from and has those below it inside, one behind another, and so has the program its
declarations; and what stands under the span of an expression is read as that expression again,
wherever it is returned. -/
theorem Program.spans_cut_out_nodes {file text : String} {program : Program Span}
    (parsed : Program.parse file text = .ok program) :
    ∃ tokens, Token.scan file text = .ok tokens ∧
      (∀ node, program.HasNode node → node.CutOut tokens) ∧
      (∃ order, program.DeclaredAs order ∧
        (order.map Declaration.node).Pairwise
          (fun first second => first.span.Precedes second.span) ∧
        ∀ declared ∈ order, declared.node.span.Within program.note) ∧
      ∀ expr, program.HasNode (.expression expr) → ∀ other, ∃ again,
        Program.parse other (Text.returning
          (Text.slice expr.note.start.offset expr.note.stop.offset text.toList)) = .ok again ∧
        again.bare =
          ⟨(), other, [], [⟨(), "f", [], [.returns () (expr.mapNotes fun _ => ())]⟩]⟩ := by
  -- What was parsed is derived from the tokens, and these are in order.
  obtain ⟨tokens, scanned, derives⟩ := Program.derives_of_parse parsed
  have order := Token.inOrder_of_scan scanned
  obtain ⟨pieces, cut, rfl⟩ := Token.cut_of_scan scanned
  have declared := derives.declared
  rw [Grammar.sentence_of_cut cut] at declared
  refine ⟨_, scanned, ?_, ?_, ?_⟩
  · -- Every node is read from tokens that stand together.
    intro node listed
    obtain ⟨before, own, after, split, read⟩ := listed.readFrom declared
    rw [split, List.append_assoc, List.append_assoc] at order ⊢
    exact read.cutOut order
  · -- Declarations are read one behind another.
    obtain ⟨items, constants, functions, turn⟩ := declared.readInTurn
    have turn := turn.before
      [⟨.finish, "", ⟨file, .after .start text.toList, .after .start text.toList⟩⟩]
    refine ⟨items, ⟨constants, functions⟩, turn.pairwise order, fun item listed => ?_⟩
    obtain ⟨before, own, after, split, read⟩ := turn.of_mem (List.mem_map_of_mem listed)
    have bounds := derives.bounds cut
    rw [split] at bounds order
    exact bounds.within_of_part read.bounds order
  · intro expr listed other
    obtain ⟨before, own, after, split, read⟩ := listed.readFrom declared
    exact Expr.parse_returning cut split read other

/-- A product behind a minus starts with a sign and has a comment inside. -/
theorem Program.spans_cut_out_signed_product :
    let text := "fun g()\x7breturn 2- -1/**/*3;\x7d"
    let span (start stop : Nat) : Span := ⟨"g", ⟨1, start + 1, start⟩, ⟨1, stop + 1, stop⟩⟩
    let product : Expr Span :=
      .binary (span 18 26) .multiply (.literal (span 18 20) "-1") (.literal (span 25 26) "3")
    let value : Expr Span := .binary (span 15 26) .subtract (.literal (span 15 16) "2") product
    let program : Program Span :=
      ⟨span 0 28, "g", [], [⟨span 0 28, "g", [], [.returns (span 8 27) value]⟩]⟩
    Program.parse "g" text = .ok program ∧ program.HasNode (.expression product) ∧
      (∃ tokens, Token.scan "g" text = .ok tokens ∧ (Node.expression product).CutOut tokens) ∧
      ∃ again, Program.parse "h" "fun f() \x7b return -1/**/*3; \x7d" = .ok again ∧
        again.bare = ⟨(), "h", [], [⟨(), "f", [], [.returns ()
          (.binary () .multiply (.literal () "-1") (.literal () "3"))]⟩]⟩ := by
  intro text span product value program
  -- A run gives the tokens, and with them the tree.
  have scanned : Token.scan "g" text = .ok [⟨.keyword, "fun", span 0 3⟩,
      ⟨.identifier, "g", span 4 5⟩, ⟨.punctuation, "(", span 5 6⟩, ⟨.punctuation, ")", span 6 7⟩,
      ⟨.punctuation, "\x7b", span 7 8⟩, ⟨.keyword, "return", span 8 14⟩,
      ⟨.number, "2", span 15 16⟩, ⟨.operator, "-", span 16 17⟩, ⟨.number, "-1", span 18 20⟩,
      ⟨.operator, "*", span 24 25⟩, ⟨.number, "3", span 25 26⟩, ⟨.punctuation, ";", span 26 27⟩,
      ⟨.punctuation, "\x7d", span 27 28⟩, ⟨.finish, "", span 28 28⟩] := by
    decide +kernel
  have parsed : Program.parse "g" text = .ok program := by
    rw [Program.parse, scanned]
    rfl
  have listed : program.HasNode (.expression product) := by
    have step : program.HasNode (.statement (.returns (span 8 27) value)) :=
      .child (.function (List.mem_singleton.mpr rfl)) (by simp [Node.children])
    have whole : program.HasNode (.expression value) :=
      .child step (by simp [Node.children, Statement.value])
    exact .child whole (by simp [Node.children, value])
  obtain ⟨tokens, found, nodes, -, expressions⟩ := Program.spans_cut_out_nodes parsed
  obtain ⟨again, reread, same⟩ := expressions product listed "h"
  have slice : Text.returning (Text.slice 18 26 text.toList) =
      "fun f() \x7b return -1/**/*3; \x7d" := by decide +kernel
  exact ⟨parsed, listed, ⟨tokens, found, nodes _ listed⟩, again, slice ▸ reread, same⟩

end DoubleLang
