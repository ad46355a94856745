import DoubleLang.Logged
import DoubleLang.Program.Reading

/-!
Programs read from tokens by descent through the grammar.

Each rule of the grammar takes what it stands for off the front of the tokens and hands the rest on.
A rule that cannot go on reports the token at hand and gives up, and so do the rules that called it.
-/

namespace DoubleLang

namespace Descent

/-- What is left of tokens when some have been taken off their front. -/
abbrev Behind (tokens : List Token) : Type :=
  { rest : List Token // rest.length < tokens.length }

/-- What is left of tokens when none or some have been taken off their front. -/
abbrev Within (tokens : List Token) : Type :=
  { rest : List Token // rest.length ≤ tokens.length }

/-- The two tiers of operations; those of the second bind tighter. -/
inductive Tier where
  | sum
  | product
  deriving DecidableEq, Repr

/-- The operations of a tier. -/
def Tier.ops : Tier → List BinaryOp
  | .sum => [.add, .subtract]
  | .product => [.multiply, .divide]

/-- How far the rules of a tier stand above those of factors. -/
def Tier.height : Tier → Nat
  | .sum => 2
  | .product => 0

variable {α : Type} (stop : Token)

/-- Reports that something else is asked for than the next token; behind all tokens stands the end
of the input. -/
def refuse (expected : Expected) (tokens : List Token) : Logged α :=
  let found := tokens.headD stop
  .giveUp (.errorAt .grammatical found.span
    ("Expected " ++ expected.text ++ ", found " ++ found.described ++ "."))

/-- Takes the next token, which has to fit. -/
def expect (fits : Token → Bool) (expected : Expected) :
    (tokens : List Token) → Logged (Token × Behind tokens)
  | [] => refuse stop expected []
  | token :: rest =>
    if fits token then pure (token, ⟨rest, by simp⟩)
    else refuse stop expected (token :: rest)

/-- Passes over a mark, if it is next. -/
def passed? (text : String) : (tokens : List Token) → Option (Behind tokens)
  | [] => none
  | token :: rest => if token.isMark text then some ⟨rest, by simp⟩ else none

/-- Passes over an operation of a tier, if one is next. -/
def operation? (tier : Tier) : (tokens : List Token) → Option (BinaryOp × Behind tokens)
  | [] => none
  | token :: rest => (Reading.operation? tier.ops token).map fun op => (op, ⟨rest, by simp⟩)

mutual

/-- A number, a name, a call, or an expression in parentheses. -/
def factor (tokens : List Token) : Logged (Expr Span × Behind tokens) :=
  match tokens with
  | [] => refuse stop .expression []
  | token :: rest =>
    if token.isNumber then pure (.literal token.span token.text, ⟨rest, by simp⟩)
    else if token.isIdentifier then
      -- A parenthesis behind a name makes it a call.
      match passed? "(" rest with
      | none => pure (.name token.span token.text, ⟨rest, by simp⟩)
      | some ⟨inside, _⟩ => do
        let (args, ⟨behind, _⟩) ← arguments inside
        let (close, ⟨behind, _⟩) ← expect stop (·.isMark ")") .argumentsClose behind
        return (.call (token.span.join close.span) token.text args, ⟨behind, by grind⟩)
    else if token.isMark "(" then do
      let (inner, ⟨behind, _⟩) ← binary .sum rest
      let (close, ⟨behind, _⟩) ← expect stop (·.isMark ")") .groupClose behind
      return (.group (token.span.join close.span) inner, ⟨behind, by grind⟩)
    else refuse stop .expression (token :: rest)
termination_by (tokens.length, 0)

/-- The arguments of a call, of which there may be none. -/
def arguments (tokens : List Token) : Logged (List (Expr Span) × Within tokens) :=
  if (passed? ")" tokens).isSome then pure ([], ⟨tokens, by omega⟩)
  else someArguments [] tokens
termination_by (tokens.length, Tier.sum.height + 4)

/-- One more argument, and those that follow behind commas. -/
def someArguments (earlier : List (Expr Span)) (tokens : List Token) :
    Logged (List (Expr Span) × Within tokens) := do
  let (arg, ⟨behind, _⟩) ← binary .sum tokens
  match passed? "," behind with
  | none => return (earlier ++ [arg], ⟨behind, by omega⟩)
  | some ⟨next, _⟩ =>
    let (args, ⟨behind, _⟩) ← someArguments (earlier ++ [arg]) next
    return (args, ⟨behind, by omega⟩)
termination_by (tokens.length, Tier.sum.height + 3)

/-- Operands of a tier with its operations between them, grouped to the left. -/
def binary (tier : Tier) (tokens : List Token) : Logged (Expr Span × Behind tokens) := do
  let (left, ⟨behind, _⟩) ← operand tier tokens
  let (whole, ⟨behind, _⟩) ← operations tier left behind
  return (whole, ⟨behind, by omega⟩)
termination_by (tokens.length, tier.height + 2)

/-- An operand of a tier: what binds tighter than its operations. -/
def operand (tier : Tier) (tokens : List Token) : Logged (Expr Span × Behind tokens) :=
  match tier with
  | .sum => binary .product tokens
  | .product => factor tokens
termination_by (tokens.length, tier.height + 1)
decreasing_by all_goals simp [Prod.lex_def, Tier.height]

/-- The operations of a tier that follow an operand. -/
def operations (tier : Tier) (left : Expr Span) (tokens : List Token) :
    Logged (Expr Span × Within tokens) :=
  match operation? tier tokens with
  | none => pure (left, ⟨tokens, by omega⟩)
  | some (op, ⟨next, _⟩) => do
    -- The operation is the left operand of the next one.
    let (right, ⟨behind, _⟩) ← operand tier next
    let (whole, ⟨behind, _⟩) ←
      operations tier (.binary (left.note.join right.note) op left right) behind
    return (whole, ⟨behind, by omega⟩)
termination_by (tokens.length, 0)

end

/-- An assignment or a return. -/
def statement (tokens : List Token) : Logged (Statement Span × Behind tokens) :=
  match tokens with
  | [] => refuse stop .statement []
  | token :: rest =>
    -- The first token tells the two forms apart.
    if token.isKeyword "return" then do
      let (value, ⟨behind, _⟩) ← binary stop .sum rest
      let (close, ⟨behind, _⟩) ← expect stop (·.isMark ";") .returnEnd behind
      return (.returns (token.span.join close.span) value, ⟨behind, by grind⟩)
    else if token.isIdentifier then do
      let (_, ⟨behind, _⟩) ← expect stop (·.isMark "=") .assignmentEquals rest
      let (value, ⟨behind, _⟩) ← binary stop .sum behind
      let (close, ⟨behind, _⟩) ← expect stop (·.isMark ";") .assignmentEnd behind
      return (.assign (token.span.join close.span) token.text value, ⟨behind, by grind⟩)
    else refuse stop .statement (token :: rest)

/-- The statements up to the brace that closes a body, and that brace. -/
def statements (earlier : List (Statement Span)) (tokens : List Token) :
    Logged (List (Statement Span) × Token × Behind tokens) :=
  match tokens with
  | [] => refuse stop .statement []
  | token :: rest =>
    if token.isMark "\x7d" then pure (earlier, token, ⟨rest, by simp⟩)
    else do
      let (next, ⟨behind, _⟩) ← statement stop (token :: rest)
      let (body, close, ⟨behind, _⟩) ← statements (earlier ++ [next]) behind
      return (body, close, ⟨behind, by omega⟩)
termination_by tokens.length
decreasing_by assumption

/-- One more parameter, and those that follow behind commas. -/
def someParameters (earlier : List (Parameter Span)) (tokens : List Token) :
    Logged (List (Parameter Span) × Within tokens) := do
  let (name, ⟨behind, _⟩) ← expect stop Token.isIdentifier .parameter tokens
  let params := earlier ++ [⟨name.span, name.text⟩]
  match passed? "," behind with
  | none => return (params, ⟨behind, by omega⟩)
  | some ⟨next, _⟩ =>
    let (params, ⟨behind, _⟩) ← someParameters params next
    return (params, ⟨behind, by omega⟩)
termination_by tokens.length

/-- The parameters of a function, of which there may be none. -/
def parameters (tokens : List Token) : Logged (List (Parameter Span) × Within tokens) :=
  if (passed? ")" tokens).isSome then pure ([], ⟨tokens, by omega⟩)
  else someParameters stop [] tokens

/-- What follows the keyword of a function. -/
def function (keyword : Token) (tokens : List Token) : Logged (Function Span × Within tokens) := do
  let (name, ⟨behind, _⟩) ← expect stop Token.isIdentifier .functionName tokens
  let (_, ⟨behind, _⟩) ← expect stop (·.isMark "(") .parametersOpen behind
  let (params, ⟨behind, _⟩) ← parameters stop behind
  let (_, ⟨behind, _⟩) ← expect stop (·.isMark ")") .parametersClose behind
  let (_, ⟨behind, _⟩) ← expect stop (·.isMark "\x7b") .bodyOpen behind
  let (body, close, ⟨behind, _⟩) ← statements stop [] behind
  return (⟨keyword.span.join close.span, name.text, params, body⟩, ⟨behind, by omega⟩)

/-- What follows the name of a constant. -/
def constant (name : Token) (tokens : List Token) : Logged (Constant Span × Within tokens) := do
  let (_, ⟨behind, _⟩) ← expect stop (·.isMark "=") .constantEquals tokens
  let (value, ⟨behind, _⟩) ← expect stop Token.isNumber .constantValue behind
  let (close, ⟨behind, _⟩) ← expect stop (·.isMark ";") .constantEnd behind
  return (⟨name.span.join close.span, name.text, value.text⟩, ⟨behind, by omega⟩)

/-- The declarations up to the end of the input. -/
def declarations (file : String) (first : Token) (constants : List (Constant Span))
    (functions : List (Function Span)) (tokens : List Token) : Logged (Program Span) :=
  match tokens with
  | [] => pure ⟨first.span.join stop.span, file, constants, functions⟩
  | token :: rest =>
    -- What stands behind the first end of the input is not looked at.
    if token.isFinish then pure ⟨first.span.join token.span, file, constants, functions⟩
    else if token.isKeyword "fun" then do
      let (next, ⟨behind, _⟩) ← function stop token rest
      declarations file first constants (functions ++ [next]) behind
    else if token.isIdentifier then do
      let (next, ⟨behind, _⟩) ← constant stop token rest
      declarations file first (constants ++ [next]) functions behind
    else refuse stop .declaration (token :: rest)
termination_by tokens.length

end Descent

/-- The program that tokens form; the log takes a report of the first token out of place. -/
def Program.readInto (file : String) (tokens : List Token) : Logged (Program Span) :=
  match tokens.getLast? with
  -- Tokens that do not end the input have no place to report.
  | none => .giveUp ⟨.grammatical, .error, Refusal.unended.message, file, none⟩
  | some stop =>
    if stop.isFinish then
      Descent.declarations stop file (tokens.headD stop) [] [] tokens
    else .giveUp ⟨.grammatical, .error, Refusal.unended.message, file, none⟩

end DoubleLang
