import DoubleLang.Proofs.Program.Normal
import DoubleLang.Proofs.Program.Notes
import DoubleLang.Proofs.Token.Word

/-!
The words of a program, in the order they are written.

No word is added to what a tree says: parentheses come from groups only. If the tree is normal, its
words can stand one right behind another, and they derive the tree again.
-/

namespace DoubleLang

section Words

variable {α : Type}

mutual

/-- The words of an expression. -/
def Expr.words : Expr α → List Word
  | .literal _ text => [(.number, text)]
  | .name _ read => [(.identifier, read)]
  | .binary _ op left right => left.words ++ (.operator, op.symbol) :: right.words
  | .call _ callee args =>
    (.identifier, callee) :: .mark "(" ::
      ([.mark ","].intercalate (Expr.wordsOfEach args) ++ [.mark ")"])
  | .group _ inner => .mark "(" :: (inner.words ++ [.mark ")"])

/-- The words of each of several expressions. -/
def Expr.wordsOfEach : List (Expr α) → List (List Word)
  | [] => []
  | arg :: rest => arg.words :: Expr.wordsOfEach rest

end

/-- The words of a statement. -/
def Statement.words : Statement α → List Word
  | .assign _ target value =>
    (.identifier, target) :: .mark "=" :: (value.words ++ [.mark ";"])
  | .returns _ value => (.keyword, "return") :: (value.words ++ [.mark ";"])

/-- The words of parameters, with commas between them. -/
def Parameter.words (params : List (Parameter α)) : List Word :=
  [.mark ","].intercalate (params.map fun param => [(.identifier, param.name)])

/-- The words of a function. -/
def Function.words (function : Function α) : List Word :=
  (.keyword, "fun") :: (.identifier, function.name) :: .mark "(" ::
    (Parameter.words function.params ++ .mark ")" :: .mark "\x7b" ::
      (function.body.flatMap Statement.words ++ [.mark "\x7d"]))

/-- The words of a constant. -/
def Constant.words (constant : Constant α) : List Word :=
  [(.identifier, constant.name), .mark "=", (.number, constant.value), .mark ";"]

/-- A declaration of a program. -/
inductive Declaration (α : Type) where
  | constant (declared : Constant α)
  | function (declared : Function α)

namespace Declaration

/-- The constant that is declared. -/
def constant? : Declaration α → Option (Constant α)
  | .constant declared => some declared
  | .function _ => none

/-- The function that is declared. -/
def function? : Declaration α → Option (Function α)
  | .constant _ => none
  | .function declared => some declared

/-- The words of a declaration. -/
def words : Declaration α → List Word
  | .constant declared => declared.words
  | .function declared => declared.words

end Declaration

/-- The text of declarations, with no space but those behind keywords. -/
def Declaration.written (order : List (Declaration α)) : String :=
  Word.writtenAll (order.flatMap Declaration.words)

/-- An order in which the constants and the functions of a program may be declared: each kind comes
as the program lists it. -/
structure Program.DeclaredAs (program : Program α) (order : List (Declaration α)) : Prop where
  constants : order.filterMap Declaration.constant? = program.constants
  functions : order.filterMap Declaration.function? = program.functions

end Words

namespace Word

variable {afterOperand : Bool} {text : String} {rest : List Word}

/-- A mark may stand behind anything. -/
theorem InTurn.mark (text : String) (behind : InTurn false rest)
    (listed : text ∈ ["(", "\x7b", "\x7d", ",", ";", "="] := by decide) :
    InTurn afterOperand (.mark text :: rest) := by
  -- None of these marks is an operation or an operand.
  simp only [List.mem_cons, List.not_mem_nil, or_false] at listed
  refine ⟨?_, by cases afterOperand <;> simp [Word.mark], ?_⟩
  · rcases listed with rfl | rfl | rfl | rfl | rfl | rfl <;> exact ⟨_, rfl, by decide⟩
  · rcases listed with rfl | rfl | rfl | rfl | rfl | rfl <;> exact behind

/-- A closing parenthesis may stand behind anything, and is an operand. -/
theorem InTurn.closing (behind : InTurn true rest) :
    InTurn afterOperand (.mark ")" :: rest) :=
  ⟨⟨')', rfl, by decide⟩, by cases afterOperand <;> decide, behind⟩

/-- A keyword may stand where an operand may not. -/
theorem InTurn.keyword (text : String) (behind : InTurn false rest)
    (listed : text ∈ Piece.keywords := by decide) :
    InTurn false ((.keyword, text) :: rest) :=
  ⟨⟨by simpa using listed, by simp [Piece.StartsWith]⟩, by simp, behind⟩

/-- The sign of an operation stands behind an operand. -/
theorem InTurn.sign (op : BinaryOp) (behind : InTurn false rest) :
    InTurn true ((.operator, op.symbol) :: rest) := by
  refine ⟨?_, by simp, behind⟩
  cases op <;> exact ⟨_, rfl, by decide, by simp [Piece.StartsWith], by simp [Piece.StartsWith]⟩

/-- A name is an operand. -/
theorem InTurn.name (named : IsName text) (behind : InTurn true rest) :
    InTurn false ((.identifier, text) :: rest) :=
  ⟨⟨named.1, by simpa using named.2, by simp [Piece.StartsWith]⟩, by simp, behind⟩

/-- A number is an operand. -/
theorem InTurn.numeral (numeral : IsNumeral text) (behind : InTurn true rest) :
    InTurn false ((.number, text) :: rest) :=
  ⟨⟨numeral, by simp [Piece.EndsNumber, Piece.StartsWith], fun _ => rfl⟩, by simp, behind⟩

end Word

section InTurn

variable {α : Type}

open Word

mutual

/-- The words of a normal expression are an operand. -/
theorem Expr.inTurn_words : ∀ (expr : Expr α) (rest : List Word), expr.Normal →
    InTurn true rest → InTurn false (expr.words ++ rest)
  | .literal _ _, _, normal, behind => InTurn.numeral normal behind
  | .name _ _, _, normal, behind => InTurn.name normal behind
  | .binary _ op left right, rest, normal, behind => by
    -- The sign stands behind the left operand, and the right one where an operand may start.
    have last := right.inTurn_words rest normal.2.1 behind
    have first := left.inTurn_words _ normal.1 (InTurn.sign op last)
    simpa [Expr.words] using first
  | .call _ _ args, rest, normal, behind => by
    -- The end of a call is an operand's end, whatever the last argument is.
    have inside := Expr.inTurn_wordsOfEach args (.mark ")" :: rest) normal.2
      fun _ => InTurn.closing behind
    have opened := InTurn.name normal.1 (InTurn.mark "(" inside)
    simpa [Expr.words] using opened
  | .group _ inner, rest, normal, behind => by
    have inside := inner.inTurn_words (.mark ")" :: rest) normal (InTurn.closing behind)
    have opened : InTurn false (.mark "(" :: _) := InTurn.mark "(" inside
    simpa [Expr.words] using opened

/-- The words of normal arguments stand in front of anything that may stand anywhere. -/
private theorem Expr.inTurn_wordsOfEach : ∀ (args : List (Expr α)) (rest : List Word),
    Expr.NormalAll args → (∀ afterOperand, InTurn afterOperand rest) →
      InTurn false ([.mark ","].intercalate (Expr.wordsOfEach args) ++ rest)
  | [], _, _, behind => behind false
  | [arg], rest, normal, behind => by
    simpa [Expr.wordsOfEach] using arg.inTurn_words rest normal.1 (behind true)
  | arg :: next :: more, rest, normal, behind => by
    have later := Expr.inTurn_wordsOfEach (next :: more) rest normal.2 behind
    have here := arg.inTurn_words _ normal.1 (InTurn.mark "," later)
    simpa [Expr.wordsOfEach, List.intercalate_cons_cons] using here

end

/-- The words of a normal statement stand in turn, and what follows them does as at the start. -/
theorem Statement.inTurn_words {statement : Statement α} {rest : List Word}
    (normal : statement.Normal) (behind : InTurn false rest) :
    InTurn false (statement.words ++ rest) := by
  -- Both kinds of statements end in an expression and a semicolon.
  have closed (value : Expr α) (plain : value.Normal) :
      InTurn false (value.words ++ .mark ";" :: rest) :=
    value.inTurn_words _ plain (InTurn.mark ";" behind)
  cases statement with
  | assign note target value =>
    have whole := InTurn.name normal.1 (InTurn.mark "=" (closed value normal.2))
    simpa [Statement.words] using whole
  | returns note value =>
    have whole := InTurn.keyword "return" (closed value normal)
    simpa [Statement.words] using whole

/-- The words of parameters stand in front of anything that may stand anywhere. -/
theorem Parameter.inTurn_words {params : List (Parameter α)} {rest : List Word}
    (named : ∀ param ∈ params, IsName param.name)
    (behind : ∀ afterOperand, InTurn afterOperand rest) :
    InTurn false (Parameter.words params ++ rest) := by
  -- A comma stands behind every parameter but the last.
  induction params with
  | nil => exact behind false
  | cons param others ih =>
    have here := named param (by simp)
    have later := ih fun other member => named other (by simp [member])
    cases others with
    | nil => simpa [Parameter.words] using InTurn.name here (behind true)
    | cons next more =>
      have whole := InTurn.name here (InTurn.mark "," later)
      simpa [Parameter.words, List.intercalate_cons_cons] using whole

/-- Words of one thing after another stand in turn if each of them ends as it starts. -/
private theorem Word.inTurn_flatMap {β : Type} {words : β → List Word} {items : List β}
    {rest : List Word}
    (each : ∀ item ∈ items, ∀ rest, InTurn false rest → InTurn false (words item ++ rest))
    (behind : InTurn false rest) : InTurn false (items.flatMap words ++ rest) := by
  -- The last thing comes first before the rest, then the one in front of it.
  induction items with
  | nil => exact behind
  | cons item others ih =>
    rw [List.flatMap_cons, List.append_assoc]
    exact each item (by simp) _ (ih fun other member => each other (by simp [member]))

/-- The words of a normal function stand in turn, and what follows them does as at the start. -/
theorem Function.inTurn_words {function : Function α} {rest : List Word}
    (normal : function.Normal) (behind : InTurn false rest) :
    InTurn false (function.words ++ rest) := by
  -- The words are put together from the last to the first.
  have body : InTurn false (function.body.flatMap Statement.words ++ .mark "\x7d" :: rest) :=
    inTurn_flatMap (fun statement member _ => Statement.inTurn_words (normal.body statement member))
      (InTurn.mark "\x7d" behind)
  have params := Parameter.inTurn_words normal.params fun _ =>
    InTurn.closing (InTurn.mark "\x7b" body)
  have whole := InTurn.keyword "fun"
    (InTurn.name normal.named (InTurn.mark "(" params))
  simpa [Function.words] using whole

/-- The words of a normal constant stand in turn, and what follows them does as at the start. -/
theorem Constant.inTurn_words {constant : Constant α} {rest : List Word}
    (normal : constant.Normal) (behind : InTurn false rest) :
    InTurn false (constant.words ++ rest) :=
  InTurn.name normal.named (InTurn.mark "="
    (InTurn.numeral normal.value (InTurn.mark ";" behind)))

/-- The words of a normal program stand in turn, in whatever order it is declared. -/
theorem Program.inTurn_words {program : Program α} {order : List (Declaration α)}
    (normal : program.Normal) (declared : program.DeclaredAs order) :
    InTurn false (order.flatMap Declaration.words) := by
  -- Each declaration is one of the program's, and so it is normal.
  have each : ∀ item ∈ order, ∀ rest, InTurn false rest → InTurn false (item.words ++ rest) := by
    intro item member rest behind
    cases item with
    | constant found =>
      refine Constant.inTurn_words (normal.constants found ?_) behind
      rw [← declared.constants, List.mem_filterMap]
      exact ⟨_, member, rfl⟩
    | function found =>
      refine Function.inTurn_words (normal.functions found ?_) behind
      rw [← declared.functions, List.mem_filterMap]
      exact ⟨_, member, rfl⟩
  have whole : InTurn false (order.flatMap Declaration.words ++ []) := inTurn_flatMap each trivial
  simpa using whole

end InTurn

namespace Grammar

/-- One more argument in front of others. -/
theorem Arguments.cons {words more : List Token} {arg : Expr Span} {args : List (Expr Span)}
    {comma : Token} (first : Sum words arg) (divides : comma.isMark "," = true) :
    Arguments more args → Arguments (words ++ comma :: more) (arg :: args)
  | .one only => .more (.one first) divides only
  | .more earlier divided last => by
    have whole := Arguments.more (Arguments.cons first divides earlier) divided last
    simpa using whole

/-- One more parameter in front of others. -/
theorem Parameters.cons {words : List Token} {params : List (Parameter Span)} {name comma : Token}
    (named : name.isIdentifier = true) (divides : comma.isMark "," = true)
    (rest : Parameters words params) :
    Parameters (name :: comma :: words) (⟨name.span, name.text⟩ :: params) := by
  -- The grammar adds parameters at the end, so the new one goes all the way to the front.
  induction rest with
  | one last => exact .more (.one named) divides last
  | more earlier divided last ih => exact .more ih divided last

end Grammar

/-- The token of a word at a place. -/
def Word.token (here : Span) (word : Word) : Token :=
  ⟨word.1, word.2, here⟩

section Derived

open Grammar

variable {α : Type} (here : Span)

/-- The tokens of words, all at one place. -/
def Word.tokens (words : List Word) : List Token :=
  words.map (Word.token here)

/-- The words of an expression derive it, as a term or a factor if its last operation allows it. -/
structure Expr.Derived (expr : Expr α) : Prop where
  sum : Sum (Word.tokens here expr.words) (expr.mapNotes fun _ => here)
  term : expr.operation? ∉ [some .add, some .subtract] →
    Term (Word.tokens here expr.words) (expr.mapNotes fun _ => here)
  factor : expr.operation? = none →
    Factor (Word.tokens here expr.words) (expr.mapNotes fun _ => here)

variable {here}

/-- What derives as a factor derives as anything. -/
private theorem Expr.Derived.of_factor {expr : Expr α}
    (only : Factor (Word.tokens here expr.words) (expr.mapNotes fun _ => here)) :
    expr.Derived here :=
  ⟨.term (.factor only), fun _ => .factor only, fun _ => only⟩

mutual

/-- The words of a normal expression derive it. -/
private theorem Expr.derived_of_normal (still : here.join here = here) :
    ∀ expr : Expr α, expr.Normal → expr.Derived here
  | .literal _ _, _ => .of_factor (.number rfl)
  | .name _ _, _ => .of_factor (.name rfl)
  | .binary _ op left right, normal => by
    have first := left.derived_of_normal still normal.1
    have last := right.derived_of_normal still normal.2.1
    have signed : IsSign (Word.token here (.operator, op.symbol)) op := ⟨rfl, rfl⟩
    -- The place of an operation is where its operands are.
    by_cases tight : op ∈ [.multiply, .divide]
    · obtain ⟨product, single⟩ := normal.2.2.1 tight
      have whole := Term.operation (first.term product) signed tight (last.factor single)
      simp only [Expr.note_mapNotes, still] at whole
      have term : Term (Word.tokens here (left.words ++ (.operator, op.symbol) :: right.words))
          (.binary here op (left.mapNotes fun _ => here) (right.mapNotes fun _ => here)) := by
        simpa [Word.tokens] using whole
      exact ⟨.term term, fun _ => term, fun none => by cases none⟩
    · have loose : op ∈ [.add, .subtract] := by cases op <;> simp_all
      have whole := Sum.operation first.sum signed loose (last.term (normal.2.2.2 loose))
      simp only [Expr.note_mapNotes, still] at whole
      have sum : Sum (Word.tokens here (left.words ++ (.operator, op.symbol) :: right.words))
          (.binary here op (left.mapNotes fun _ => here) (right.mapNotes fun _ => here)) := by
        simpa [Word.tokens] using whole
      refine ⟨sum, fun other => absurd ?_ other, fun none => by cases none⟩
      simpa [Expr.operation?] using loose
  | .call _ callee [], _ => by
    have whole := @Factor.callEmpty (Word.token here (.identifier, callee))
      (Word.token here (.mark "(")) (Word.token here (.mark ")")) rfl rfl rfl
    apply Expr.Derived.of_factor
    simpa [Expr.words, Expr.wordsOfEach, Word.tokens, Expr.mapNotes, Expr.mapNotesOfAll, Word.token,
      still] using whole
  | .call _ callee (arg :: rest), normal => by
    have inside := Expr.arguments_of_normal still (arg :: rest) (by simp) normal.2
    have whole := @Factor.call (Word.token here (.identifier, callee))
      (Word.token here (.mark "(")) (Word.token here (.mark ")")) _ _ rfl rfl inside rfl
    apply Expr.Derived.of_factor
    simpa [Expr.words, Word.tokens, Expr.mapNotes, Word.token, still] using whole
  | .group _ inner, normal => by
    have inside := (inner.derived_of_normal still normal).sum
    have whole := @Factor.group (Word.token here (.mark "(")) (Word.token here (.mark ")")) _ _
      rfl inside rfl
    apply Expr.Derived.of_factor
    simpa [Expr.words, Word.tokens, Expr.mapNotes, Word.token, still] using whole

/-- The words of normal arguments derive them. -/
private theorem Expr.arguments_of_normal (still : here.join here = here) :
    ∀ args : List (Expr α), args ≠ [] → Expr.NormalAll args →
      Arguments (Word.tokens here ([.mark ","].intercalate (Expr.wordsOfEach args)))
        (Expr.mapNotesOfAll (fun _ => here) args)
  | [], filled, _ => absurd rfl filled
  | [arg], _, normal => by
    simpa [Expr.wordsOfEach, Expr.mapNotesOfAll] using
      Arguments.one (arg.derived_of_normal still normal.1).sum
  | arg :: next :: more, _, normal => by
    have later := Expr.arguments_of_normal still (next :: more) (by simp) normal.2
    have whole := Arguments.cons (arg.derived_of_normal still normal.1).sum
      (show (Word.token here (.mark ",")).isMark "," = true from rfl) later
    simpa [Expr.wordsOfEach, List.intercalate_cons_cons, Word.tokens, Expr.mapNotesOfAll]
      using whole

end

/-- The words of a normal statement derive it. -/
private theorem Statement.step_of_normal (still : here.join here = here) {statement : Statement α}
    (normal : statement.Normal) :
    Step (Word.tokens here statement.words) (statement.mapNotes fun _ => here) := by
  -- Both forms are put together from their words and the derived expression.
  cases statement with
  | assign note target value =>
    have whole := @Step.assign (Word.token here (.identifier, target)) (Word.token here (.mark "="))
      (Word.token here (.mark ";")) _ _ rfl rfl (value.derived_of_normal still normal.2).sum rfl
    simpa [Statement.words, Word.tokens, Statement.mapNotes, Word.token, still] using whole
  | returns note value =>
    have whole := @Step.returns (Word.token here (.keyword, "return"))
      (Word.token here (.mark ";")) _ _ rfl (value.derived_of_normal still normal).sum rfl
    simpa [Statement.words, Word.tokens, Statement.mapNotes, Word.token, still] using whole

/-- The words of normal statements derive them. -/
private theorem Statement.steps_of_normal (still : here.join here = here)
    {statements : List (Statement α)} (normal : ∀ statement ∈ statements, statement.Normal) :
    Steps (Word.tokens here (statements.flatMap Statement.words))
      (statements.map (Statement.mapNotes fun _ => here)) := by
  -- The grammar adds statements at the end.
  induction statements using List.reverseRecOn with
  | nil => exact .none
  | append_singleton earlier last ih =>
    have before := ih fun statement member => normal statement (by simp [member])
    have whole := Steps.more before (Statement.step_of_normal still (normal last (by simp)))
    simpa [Word.tokens] using whole

/-- The words of parameters derive them. -/
private theorem Parameter.list_of_words (here : Span) (params : List (Parameter α)) :
    ParameterList (Word.tokens here (Parameter.words params))
      (params.map (Parameter.mapNotes fun _ => here)) := by
  -- Without parameters there are no words, and otherwise there is a first one.
  have some : ∀ (param : Parameter α) (rest : List (Parameter α)),
      Parameters (Word.tokens here (Parameter.words (param :: rest)))
        ((param :: rest).map (Parameter.mapNotes fun _ => here)) := by
    intro param rest
    have named (param : Parameter α) :
        (Word.token here (.identifier, param.name)).isIdentifier = true := rfl
    induction rest generalizing param with
    | nil => exact .one (named param)
    | cons next more ih =>
      have whole := Parameters.cons (named param)
        (show (Word.token here (.mark ",")).isMark "," = true from rfl) (ih next)
      simpa [Parameter.words, List.intercalate_cons_cons, Word.tokens, Word.token,
        Parameter.mapNotes] using whole
  cases params with
  | nil => exact .none
  | cons param rest => exact .some (some param rest)

/-- The words of a normal function derive it. -/
private theorem Function.declaration_of_normal (still : here.join here = here)
    {function : Function α}
    (normal : function.Normal) :
    FunctionDeclaration (Word.tokens here function.words)
      (function.mapNotes fun _ => here) := by
  -- The declaration is put together from its words and the derived parts.
  have whole := @FunctionDeclaration.mk (Word.token here (.keyword, "fun"))
    (Word.token here (.identifier, function.name)) (Word.token here (.mark "("))
    (Word.token here (.mark ")")) (Word.token here (.mark "\x7b"))
    (Word.token here (.mark "\x7d")) _ _ _ _ rfl rfl rfl
    (Parameter.list_of_words here function.params) rfl rfl
    (Statement.steps_of_normal still normal.body) rfl
  simpa [Function.words, Word.tokens, Function.mapNotes, Word.token, still] using whole

/-- The words of a constant derive it. -/
private theorem Constant.declaration_of_words (still : here.join here = here)
    (constant : Constant α) :
    ConstantDeclaration (Word.tokens here constant.words) (constant.mapNotes fun _ => here) := by
  -- All four words are of the kinds that the declaration asks for.
  have whole := @ConstantDeclaration.mk (Word.token here (.identifier, constant.name))
    (Word.token here (.mark "=")) (Word.token here (.number, constant.value))
    (Word.token here (.mark ";")) rfl rfl rfl rfl
  simpa [Constant.words, Word.tokens, Constant.mapNotes, Word.token, still] using whole

/-- The words of normal declarations derive them, each kind in its order. -/
theorem Declaration.declarations_of_normal (still : here.join here = here)
    {order : List (Declaration α)}
    (normal : ∀ function ∈ order.filterMap function?, function.Normal) :
    Declarations (Word.tokens here (order.flatMap Declaration.words))
      ((order.filterMap constant?).map (Constant.mapNotes fun _ => here))
      ((order.filterMap function?).map (Function.mapNotes fun _ => here)) := by
  -- The grammar adds declarations at the end.
  induction order using List.reverseRecOn with
  | nil => exact .none
  | append_singleton earlier last ih =>
    rw [List.filterMap_append] at normal
    have before := ih fun function member => normal function (by simp [member])
    cases last with
    | constant found =>
      have whole := Declarations.constant before (found.declaration_of_words still)
      simpa [Word.tokens, Declaration.words, List.filterMap_cons, constant?, function?] using whole
    | function found =>
      have whole := Declarations.function before
        (Function.declaration_of_normal still (normal found (by simp [function?])))
      simpa [Word.tokens, Declaration.words, List.filterMap_cons, constant?, function?] using whole

end Derived

end DoubleLang
