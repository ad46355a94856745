import DoubleLang.Proofs.Program.Notes
import DoubleLang.Program.Reading

/-!
Reading under a change of spans.

What is read from tokens depends on their kinds and texts. If spans are changed in a way that keeps
joins, then the tree comes out with its notes changed in that way, and a refusal is for the same
token, with the same wording.
-/

namespace DoubleLang

section Relocation

variable (change : Span → Span)

/-- A token at another place. -/
def Token.mapSpan (token : Token) : Token :=
  { token with span := change token.span }

/-- Whether a token is a mark is not a matter of its place. -/
@[simp] theorem Token.isMark_mapSpan (token : Token) (text : String) :
    (token.mapSpan change).isMark text = token.isMark text := rfl

/-- Whether a token is a keyword is not a matter of its place. -/
@[simp] theorem Token.isKeyword_mapSpan (token : Token) (text : String) :
    (token.mapSpan change).isKeyword text = token.isKeyword text := rfl

/-- Whether a token is an identifier is not a matter of its place. -/
@[simp] theorem Token.isIdentifier_mapSpan (token : Token) :
    (token.mapSpan change).isIdentifier = token.isIdentifier := rfl

/-- Whether a token is a number is not a matter of its place. -/
@[simp] theorem Token.isNumber_mapSpan (token : Token) :
    (token.mapSpan change).isNumber = token.isNumber := rfl

/-- A token at another place has the changed span. -/
@[simp] theorem Token.span_mapSpan (token : Token) :
    (token.mapSpan change).span = change token.span := rfl

/-- A token at another place has the same text. -/
@[simp] theorem Token.text_mapSpan (token : Token) : (token.mapSpan change).text = token.text := rfl

/-- A refusal of a token at another place. -/
def Refusal.mapSpan : Refusal → Refusal
  | .unended => .unended
  | .unexpected expected found => .unexpected expected (found.mapSpan change)

namespace Reading

/-- A waiting operand with its notes changed. -/
def Waiting.mapSpan (waiting : Waiting) : Waiting :=
  ⟨waiting.left.mapNotes change, waiting.op⟩

/-- A purpose with all that it keeps changed. -/
def Purpose.mapSpan : Purpose → Purpose
  | .returned keyword => .returned (keyword.mapSpan change)
  | .assigned target => .assigned (target.mapSpan change)
  | .grouped opening sum product outer =>
    .grouped (opening.mapSpan change) (sum.map (Waiting.mapSpan change))
      (product.map (Waiting.mapSpan change)) outer.mapSpan
  | .argument callee earlier sum product outer =>
    .argument (callee.mapSpan change) (earlier.map (Expr.mapNotes change))
      (sum.map (Waiting.mapSpan change)) (product.map (Waiting.mapSpan change)) outer.mapSpan

/-- The head of a function with its tokens and parameters changed. -/
def Head.mapSpan (head : Head) : Head :=
  ⟨head.keyword.mapSpan change, head.name.mapSpan change,
    head.params.map (Parameter.mapNotes change)⟩

/-- The body of a function with its head and statements changed. -/
def Body.mapSpan (body : Body) : Body :=
  ⟨body.head.mapSpan change, body.statements.map (Statement.mapNotes change)⟩

/-- A level with its waiting operands and its purpose changed. -/
def Level.mapSpan (level : Level) : Level :=
  ⟨level.sum.map (Waiting.mapSpan change), level.product.map (Waiting.mapSpan change),
    level.purpose.mapSpan change⟩

/-- A state with all that it holds changed. -/
def State.mapSpan : State → State
  | .declaration => .declaration
  | .constantEquals name => .constantEquals (name.mapSpan change)
  | .constantValue name => .constantValue (name.mapSpan change)
  | .constantEnd name value => .constantEnd (name.mapSpan change) (value.mapSpan change)
  | .functionName keyword => .functionName (keyword.mapSpan change)
  | .parametersOpen keyword name => .parametersOpen (keyword.mapSpan change) (name.mapSpan change)
  | .firstParameter head => .firstParameter (head.mapSpan change)
  | .nextParameter head => .nextParameter (head.mapSpan change)
  | .afterParameter head => .afterParameter (head.mapSpan change)
  | .bodyOpen head => .bodyOpen (head.mapSpan change)
  | .statement body => .statement (body.mapSpan change)
  | .assignmentEquals body target =>
    .assignmentEquals (body.mapSpan change) (target.mapSpan change)
  | .operand body level => .operand (body.mapSpan change) (level.mapSpan change)
  | .firstArgument body level callee =>
    .firstArgument (body.mapSpan change) (level.mapSpan change) (callee.mapSpan change)
  | .afterName body level name =>
    .afterName (body.mapSpan change) (level.mapSpan change) (name.mapSpan change)
  | .afterOperand body level last =>
    .afterOperand (body.mapSpan change) (level.mapSpan change) (last.mapNotes change)

/-- A reading with its declarations and its state changed. -/
def mapSpan (reading : Reading) : Reading :=
  ⟨reading.constants.map (Constant.mapNotes change),
    reading.functions.map (Function.mapNotes change), reading.state.mapSpan change⟩

/-- The same is asked for, whatever the spans are. -/
private theorem State.expected_mapSpan (state : State) :
    (state.mapSpan change).expected = state.expected := by
  -- What closes an expression follows from what it is read for.
  have close (purpose : Purpose) : (purpose.mapSpan change).close = purpose.close := by
    cases purpose <;> rfl
  cases state with
  | afterName body level name => exact close level.purpose
  | afterOperand body level operand => exact close level.purpose
  | _ => rfl

/-- A parameter is added to the head of a function alike, whatever the spans are. -/
theorem Head.push_mapSpan (head : Head) (name : Token) :
    (head.mapSpan change).push (name.mapSpan change) = (head.push name).mapSpan change := by
  simp [Head.push, Head.mapSpan, Parameter.mapNotes]

/-- A statement is added to a body alike, whatever the spans are. -/
theorem Body.push_mapSpan (body : Body) (statement : Statement Span) :
    (body.mapSpan change).push (statement.mapNotes change) =
      (body.push statement).mapSpan change := by
  simp [Body.push, Body.mapSpan]

/-- The first token of an operand opens the same, whatever the spans are. -/
private theorem enterOperand?_mapSpan (body : Body) (level : Level) (token : Token) :
    enterOperand? (body.mapSpan change) (level.mapSpan change) (token.mapSpan change) =
      (enterOperand? body level token).map (State.mapSpan change) := by
  -- The kind of the token tells what it opens.
  simp only [enterOperand?, Token.isNumber_mapSpan, Token.isIdentifier_mapSpan,
    Token.isMark_mapSpan, apply_ite (Option.map (State.mapSpan change))]
  rfl

/-- A token stands for the same operation, whatever its span is. -/
private theorem operation?_mapSpan (ops : List BinaryOp) (token : Token) :
    operation? ops (token.mapSpan change) = operation? ops token := rfl

/-- A state that is entered is entered with the declarations changed too. -/
private theorem map_enter_mapSpan (reading : Reading) (entered : Option State) :
    (entered.map (State.mapSpan change)).map (reading.mapSpan change).enter =
      (entered.map reading.enter).map (mapSpan change) := by
  cases entered <;> rfl

section Joins

variable {change : Span → Span}
  (joins : ∀ first last : Span, change (first.join last) = (change first).join (change last))

include joins

/-- An operation spans from its left operand to its right one, at the changed places too. -/
private theorem Waiting.apply_mapSpan (waiting : Option Waiting) (right : Expr Span) :
    Waiting.apply (waiting.map (Waiting.mapSpan change)) (right.mapNotes change) =
      (Waiting.apply waiting right).mapNotes change := by
  -- The span of an operation is joined from those of its operands.
  cases waiting with
  | none => rfl
  | some waiting => simp [Waiting.apply, Waiting.mapSpan, Expr.mapNotes, joins]

/-- What waits on a level is completed alike, whatever the spans are. -/
private theorem Level.whole_mapSpan (level : Level) (last : Expr Span) :
    (level.mapSpan change).whole (last.mapNotes change) = (level.whole last).mapNotes change := by
  simp only [Level.whole, Level.mapSpan, Waiting.apply_mapSpan joins]

/-- An expression is left through the same tokens, whatever the spans are. -/
private theorem leaveExpression?_mapSpan (body : Body) (purpose : Purpose) (whole : Expr Span)
    (token : Token) :
    leaveExpression? (body.mapSpan change) (purpose.mapSpan change) (whole.mapNotes change)
        (token.mapSpan change) =
      (leaveExpression? body purpose whole token).map (State.mapSpan change) := by
  -- What is made spans from a token that was kept to the one that closes.
  cases purpose with
  | returned keyword =>
    simp only [Purpose.mapSpan, leaveExpression?, Token.isMark_mapSpan, Token.span_mapSpan,
      ← joins, apply_ite (Option.map (State.mapSpan change))]
    rw [← Statement.mapNotes, Body.push_mapSpan]
    rfl
  | assigned target =>
    simp only [Purpose.mapSpan, leaveExpression?, Token.isMark_mapSpan, Token.span_mapSpan,
      ← joins, apply_ite (Option.map (State.mapSpan change))]
    rw [Token.text_mapSpan, ← Statement.mapNotes, Body.push_mapSpan]
    rfl
  | grouped opening sum product outer =>
    simp only [Purpose.mapSpan, leaveExpression?, Token.isMark_mapSpan, Token.span_mapSpan,
      ← joins, apply_ite (Option.map (State.mapSpan change))]
    rfl
  | argument callee earlier sum product outer =>
    simp only [Purpose.mapSpan, leaveExpression?, Token.isMark_mapSpan, Token.span_mapSpan,
      ← joins, apply_ite (Option.map (State.mapSpan change))]
    -- An argument may be followed by a comma or by the end of its call, and both are moved.
    simp only [Option.map_some, Option.map_none, State.mapSpan, Level.mapSpan, Level.fresh,
      Purpose.mapSpan, Expr.mapNotes, Expr.mapNotesOfAll_eq, List.map_append, List.map_cons,
      List.map_nil, Token.text_mapSpan]

/-- An operand is left through the same tokens, whatever the spans are. -/
private theorem leaveOperand?_mapSpan (body : Body) (level : Level) (last : Expr Span)
    (token : Token) :
    leaveOperand? (body.mapSpan change) (level.mapSpan change) (last.mapNotes change)
        (token.mapSpan change) =
      (leaveOperand? body level last token).map (State.mapSpan change) := by
  -- A sign is tried as one of a product, then as one of a sum, and then other tokens are.
  have applied := Waiting.apply_mapSpan joins level.product last
  have whole := Level.whole_mapSpan joins level last
  simp only [leaveOperand?, operation?_mapSpan, whole]
  cases operation? [.multiply, .divide] token with
  | some op =>
    -- The product before the sign waits, with its notes changed.
    simp only [Level.mapSpan, applied]
    rfl
  | none =>
    cases operation? [.add, .subtract] token with
    | some op => rfl
    | none => exact leaveExpression?_mapSpan joins body level.purpose (level.whole last) token

/-- A token is read alike, whatever the spans are. -/
private theorem step?_mapSpan (reading : Reading) (token : Token) :
    (reading.mapSpan change).step? (token.mapSpan change) =
      (reading.step? token).map (mapSpan change) := by
  obtain ⟨constants, functions, state⟩ := reading
  -- Kinds and texts decide where to go on; the states named here also make something new.
  cases state with
  | constantEnd name value =>
    simp only [step?, mapSpan, State.mapSpan, Token.isMark_mapSpan, Token.span_mapSpan, ← joins,
      apply_ite (Option.map (mapSpan change))]
    simp [pushConstant, mapSpan, State.mapSpan, Constant.mapNotes]
  | firstParameter head =>
    simp only [step?, mapSpan, State.mapSpan, Token.isMark_mapSpan, Token.isIdentifier_mapSpan,
      Head.push_mapSpan, apply_ite (Option.map (mapSpan change))]
    rfl
  | nextParameter head =>
    simp only [step?, mapSpan, State.mapSpan, Token.isIdentifier_mapSpan, Head.push_mapSpan,
      apply_ite (Option.map (mapSpan change))]
    rfl
  | statement body =>
    have made : (body.mapSpan change).function (token.mapSpan change) =
        (body.function token).mapNotes change := by
      simp [Body.function, Body.mapSpan, Head.mapSpan, Function.mapNotes, joins]
    simp only [step?, mapSpan, State.mapSpan, Token.isMark_mapSpan, Token.isKeyword_mapSpan,
      Token.isIdentifier_mapSpan, made, apply_ite (Option.map (mapSpan change))]
    simp [pushFunction, mapSpan, State.mapSpan]
    rfl
  | operand body level =>
    have entered := enterOperand?_mapSpan change body level token
    exact (congrArg _ entered).trans (map_enter_mapSpan change
      ⟨constants, functions, .operand body level⟩ _)
  | firstArgument body level callee =>
    -- An argument is entered like any operand, with the call as its purpose.
    have entered := enterOperand?_mapSpan change body
      (.fresh (.argument callee [] level.sum level.product level.purpose)) token
    simp only [step?, mapSpan, State.mapSpan, Token.isMark_mapSpan, Token.span_mapSpan, ← joins,
      apply_ite (Option.map (mapSpan change))]
    congr 1
    exact (congrArg _ entered).trans (map_enter_mapSpan change
      ⟨constants, functions, .firstArgument body level callee⟩ _)
  | afterName body level name =>
    have left := leaveOperand?_mapSpan joins body level (.name name.span name.text) token
    simp only [step?, mapSpan, State.mapSpan, Token.isMark_mapSpan,
      apply_ite (Option.map (mapSpan change))]
    congr 1
    exact (congrArg _ left).trans (map_enter_mapSpan change
      ⟨constants, functions, .afterName body level name⟩ _)
  | afterOperand body level last =>
    have left := leaveOperand?_mapSpan joins body level last token
    exact (congrArg _ left).trans (map_enter_mapSpan change
      ⟨constants, functions, .afterOperand body level last⟩ _)
  | _ =>
    simp only [step?, mapSpan, State.mapSpan, Token.isMark_mapSpan, Token.isKeyword_mapSpan,
      Token.isIdentifier_mapSpan, Token.isNumber_mapSpan, apply_ite (Option.map (mapSpan change))]
    rfl

/-- Tokens are read alike, whatever the spans are. -/
private theorem steps_mapSpan (reading : Reading) (tokens : List Token) :
    (reading.mapSpan change).steps (tokens.map (Token.mapSpan change)) =
      ((reading.steps tokens).map (mapSpan change)).mapError (Refusal.mapSpan change) := by
  -- A token that is read leaves a reading for the others, and one that is not is refused.
  induction tokens generalizing reading with
  | nil => rfl
  | cons token rest ih =>
    simp only [List.map_cons, steps, step?_mapSpan joins]
    cases reading.step? token with
    | some next => exact ih next
    | none =>
      simp only [Option.map_none, mapSpan, State.expected_mapSpan]
      rfl

/-- The input is ended alike, whatever the spans are. -/
private theorem finish_mapSpan (reading : Reading) (file : String) (first stop : Token) :
    (reading.mapSpan change).finish file (first.mapSpan change) (stop.mapSpan change) =
      ((reading.finish file first stop).map (Program.mapNotes change)).mapError
        (Refusal.mapSpan change) := by
  obtain ⟨constants, functions, state⟩ := reading
  have expected := State.expected_mapSpan change state
  -- Only between declarations is there a program.
  cases state with
  | declaration =>
    simp only [finish, mapSpan, State.mapSpan, Token.span_mapSpan, ← joins]
    rfl
  | _ =>
    exact congrArg (fun asked : Expected =>
      (Except.error (.unexpected asked (stop.mapSpan change)) : Except Refusal (Program Span)))
      expected

end Joins

end Reading

/-- Tokens form the same program with other notes, or they are refused at the same token. -/
theorem Program.read_mapSpan {change : Span → Span}
    (joins : ∀ first last : Span, change (first.join last) = (change first).join (change last))
    (file : String) (tokens : List Token) :
    Program.read file (tokens.map (Token.mapSpan change)) =
      ((Program.read file tokens).map (Program.mapNotes change)).mapError
        (Refusal.mapSpan change) := by
  -- The tokens in front of the end are the same, and so is whether there is an end.
  have classes : (Token.isFinish ∘ Token.mapSpan change) = Token.isFinish := rfl
  have sentence : (tokens.map (Token.mapSpan change)).takeWhile (! ·.isFinish) =
      (tokens.takeWhile (! ·.isFinish)).map (Token.mapSpan change) := by
    rw [List.takeWhile_map]
    rfl
  have read := Reading.steps_mapSpan joins Reading.start (tokens.takeWhile (! ·.isFinish))
  cases tokens with
  | nil => rfl
  | cons first rest =>
    simp only [Program.read, sentence, List.find?_map, classes, List.getLast?_map, Option.map_map]
    simp only [List.map_cons]
    cases (first :: rest).find? Token.isFinish with
    | none => rfl
    | some stop =>
      simp only [Option.map_some]
      split
      · -- The start holds nothing that could change.
        have start : Reading.start.mapSpan change = Reading.start := rfl
        rw [start] at read
        rw [read]
        cases Reading.start.steps ((first :: rest).takeWhile (! ·.isFinish)) with
        | error refusal => rfl
        | ok reading => exact Reading.finish_mapSpan joins reading file first stop
      · rfl

end Relocation

end DoubleLang
