import DoubleLang.Diagnostic
import DoubleLang.Program
import DoubleLang.Token

/-!
Programs read from tokens, one token at a time.

The state between two tokens says what may come next, and holds what has been read so far. At most
one sum and one product wait for their right operand at each level of parentheses, because products
bind tighter than sums and both group to the left.
-/

namespace DoubleLang

/-- What a reader may ask for. -/
inductive Expected where
  | declaration
  | constantEquals
  | constantValue
  | constantEnd
  | functionName
  | parametersOpen
  | parameter
  | parametersClose
  | bodyOpen
  | statement
  | assignmentEquals
  | assignmentEnd
  | returnEnd
  | expression
  | groupClose
  | argumentsClose
  deriving DecidableEq, Repr

/-- The wording for what is asked for. -/
def Expected.text : Expected → String
  | .declaration => "constant or function declaration"
  | .constantEquals => "\"=\" after constant name"
  | .constantValue => "number literal"
  | .constantEnd => "\";\" after constant"
  | .functionName => "function name"
  | .parametersOpen => "\"(\" after function name"
  | .parameter => "parameter name"
  | .parametersClose => "\")\" after parameters"
  | .bodyOpen => "\"\x7b\" to open function body"
  | .statement => "statement"
  | .assignmentEquals => "\"=\" in assignment"
  | .assignmentEnd => "\";\" after assignment"
  | .returnEnd => "\";\" after return expression"
  | .expression => "expression"
  | .groupClose => "\")\""
  | .argumentsClose => "\")\" after call arguments"

/-- Why tokens form no program. -/
inductive Refusal where
  /-- The last token is not the end of the input. -/
  | unended
  /-- The first token that nothing read before it admits. -/
  | unexpected (expected : Expected) (found : Token)
  deriving DecidableEq, Repr

namespace Refusal

/-- The wording of a refusal. -/
def message : Refusal → String
  | .unended => "Token stream does not end with an end-of-input token."
  | .unexpected expected found =>
    "Expected " ++ expected.text ++ ", found " ++ found.described ++ "."

/-- The report of a refusal, at the refused token if there is one. -/
def diagnostic (file : String) (error : Refusal) : Diagnostic :=
  match error with
  | .unended => ⟨.grammatical, .error, error.message, file, none⟩
  | .unexpected _ found => .errorAt .grammatical found.span error.message

end Refusal

namespace Reading

/-- A left operand and its operation, waiting for the right operand. -/
structure Waiting where
  left : Expr Span
  op : BinaryOp
  deriving Repr

/-- The operation of a waiting operand, done with its right operand; none waits, none is done. -/
def Waiting.apply (waiting : Option Waiting) (right : Expr Span) : Expr Span :=
  match waiting with
  | none => right
  | some ⟨left, op⟩ => .binary (left.note.join right.note) op left right

/-- What a finished expression is for. -/
inductive Purpose where
  /-- The value of a return statement, by its keyword. -/
  | returned (keyword : Token)
  /-- The value of an assignment, by its target. -/
  | assigned (target : Token)
  /-- The inside of parentheses that are an operand further out. -/
  | grouped (opening : Token) (sum product : Option Waiting) (outer : Purpose)
  /-- One more argument of a call that is an operand further out. -/
  | argument (callee : Token) (earlier : List (Expr Span)) (sum product : Option Waiting)
      (outer : Purpose)
  deriving Repr

/-- The token that closes an expression read for a purpose. -/
def Purpose.close : Purpose → Expected
  | .returned _ => .returnEnd
  | .assigned _ => .assignmentEnd
  | .grouped _ _ _ _ => .groupClose
  | .argument _ _ _ _ _ => .argumentsClose

/-- The head of a function: its keyword, its name and the parameters so far. -/
structure Head where
  keyword : Token
  name : Token
  params : List (Parameter Span)
  deriving Repr

/-- The head of a function with one more parameter. -/
def Head.push (head : Head) (name : Token) : Head :=
  { head with params := head.params ++ [⟨name.span, name.text⟩] }

/-- A function whose body is being read. -/
structure Body where
  head : Head
  statements : List (Statement Span)
  deriving Repr

/-- The body with one more statement. -/
def Body.push (body : Body) (statement : Statement Span) : Body :=
  { body with statements := body.statements ++ [statement] }

/-- The function whose body ends with a token. -/
def Body.function (body : Body) (closing : Token) : Function Span :=
  ⟨body.head.keyword.span.join closing.span, body.head.name.text, body.head.params, body.statements⟩

/-- An expression being read: the operations that wait, and the purpose. -/
structure Level where
  sum : Option Waiting
  product : Option Waiting
  purpose : Purpose
  deriving Repr

/-- A fresh expression for a purpose. -/
def Level.fresh (purpose : Purpose) : Level :=
  ⟨none, none, purpose⟩

/-- The whole expression, once its last operand is known. -/
def Level.whole (level : Level) (last : Expr Span) : Expr Span :=
  Waiting.apply level.sum (Waiting.apply level.product last)

/-- The places between two tokens, named for what has just been read or is asked for next. -/
inductive State where
  | declaration
  | constantEquals (name : Token)
  | constantValue (name : Token)
  | constantEnd (name value : Token)
  | functionName (keyword : Token)
  | parametersOpen (keyword name : Token)
  | firstParameter (head : Head)
  | nextParameter (head : Head)
  | afterParameter (head : Head)
  | bodyOpen (head : Head)
  | statement (body : Body)
  | assignmentEquals (body : Body) (target : Token)
  | operand (body : Body) (level : Level)
  | firstArgument (body : Body) (level : Level) (callee : Token)
  | afterName (body : Body) (level : Level) (name : Token)
  | afterOperand (body : Body) (level : Level) (operand : Expr Span)
  deriving Repr

/-- What a state asks for. -/
def State.expected : State → Expected
  | .declaration => .declaration
  | .constantEquals _ => .constantEquals
  | .constantValue _ => .constantValue
  | .constantEnd _ _ => .constantEnd
  | .functionName _ => .functionName
  | .parametersOpen _ _ => .parametersOpen
  | .firstParameter _ => .parameter
  | .nextParameter _ => .parameter
  | .afterParameter _ => .parametersClose
  | .bodyOpen _ => .bodyOpen
  | .statement _ => .statement
  | .assignmentEquals _ _ => .assignmentEquals
  | .operand _ _ => .expression
  | .firstArgument _ _ _ => .expression
  | .afterName _ level _ => level.purpose.close
  | .afterOperand _ level _ => level.purpose.close

/-- The state in which an operand is asked for, entered with its first token. -/
def enterOperand? (body : Body) (level : Level) (token : Token) : Option State :=
  -- Parentheses open a level of their own and keep the one outside for later.
  if token.isNumber then some (.afterOperand body level (.literal token.span token.text))
  else if token.isIdentifier then some (.afterName body level token)
  else if token.isMark "(" then
    some (.operand body (.fresh (.grouped token level.sum level.product level.purpose)))
  else none

/-- The operation that a token stands for among some. -/
def operation? (ops : List BinaryOp) (token : Token) : Option BinaryOp :=
  if token.kind == .operator then ops.find? (·.symbol == token.text) else none

/-- Leaves a finished expression through the token that closes it. -/
def leaveExpression? (body : Body) (purpose : Purpose) (whole : Expr Span) (token : Token) :
    Option State :=
  match purpose with
  | .returned keyword =>
    if token.isMark ";" then
      some (.statement (body.push (.returns (keyword.span.join token.span) whole)))
    else none
  | .assigned target =>
    if token.isMark ";" then
      some (.statement (body.push (.assign (target.span.join token.span) target.text whole)))
    else none
  | .grouped opening sum product outer =>
    if token.isMark ")" then
      some (.afterOperand body ⟨sum, product, outer⟩ (.group (opening.span.join token.span) whole))
    else none
  -- A comma asks for one more argument, and a parenthesis completes the call.
  | .argument callee earlier sum product outer =>
    if token.isMark "," then
      some (.operand body (.fresh (.argument callee (earlier ++ [whole]) sum product outer)))
    else if token.isMark ")" then
      some (.afterOperand body ⟨sum, product, outer⟩
        (.call (callee.span.join token.span) callee.text (earlier ++ [whole])))
    else none

/-- Passes from an operand to an operation, or out of the expression. -/
def leaveOperand? (body : Body) (level : Level) (last : Expr Span) (token : Token) : Option State :=
  match operation? [.multiply, .divide] token with
  | some op =>
    -- A product ends the product before it, and the sum waits on.
    some (.operand body { level with product := some ⟨Waiting.apply level.product last, op⟩ })
  | none =>
    match operation? [.add, .subtract] token with
    | some op =>
      -- A sum ends the product before it, and the sum before it too.
      some (.operand body ⟨some ⟨level.whole last, op⟩, none, level.purpose⟩)
    | none => leaveExpression? body level.purpose (level.whole last) token

end Reading

/-- A program being read: the declarations so far and the state between two tokens. -/
structure Reading where
  constants : List (Constant Span)
  functions : List (Function Span)
  state : Reading.State
  deriving Repr

namespace Reading

/-- Nothing has been read. -/
def start : Reading := ⟨[], [], .declaration⟩

/-- The same declarations in another state. -/
def enter (reading : Reading) (state : State) : Reading :=
  { reading with state }

/-- One more constant, complete. -/
def pushConstant (reading : Reading) (constant : Constant Span) : Reading :=
  ⟨reading.constants ++ [constant], reading.functions, .declaration⟩

/-- One more function, complete. -/
def pushFunction (reading : Reading) (function : Function Span) : Reading :=
  ⟨reading.constants, reading.functions ++ [function], .declaration⟩

/-- Reads one token, if the state admits it. -/
def step? (reading : Reading) (token : Token) : Option Reading :=
  match reading.state with
  | .declaration =>
    if token.isKeyword "fun" then some (reading.enter (.functionName token))
    else if token.isIdentifier then some (reading.enter (.constantEquals token))
    else none
  | .constantEquals name =>
    if token.isMark "=" then some (reading.enter (.constantValue name)) else none
  | .constantValue name =>
    if token.isNumber then some (reading.enter (.constantEnd name token)) else none
  | .constantEnd name value =>
    if token.isMark ";" then
      some (reading.pushConstant ⟨name.span.join token.span, name.text, value.text⟩)
    else none
  | .functionName keyword =>
    if token.isIdentifier then some (reading.enter (.parametersOpen keyword token)) else none
  | .parametersOpen keyword name =>
    if token.isMark "(" then some (reading.enter (.firstParameter ⟨keyword, name, []⟩)) else none
  | .firstParameter head =>
    if token.isMark ")" then some (reading.enter (.bodyOpen head))
    else if token.isIdentifier then some (reading.enter (.afterParameter (head.push token)))
    else none
  | .nextParameter head =>
    if token.isIdentifier then some (reading.enter (.afterParameter (head.push token))) else none
  | .afterParameter head =>
    if token.isMark "," then some (reading.enter (.nextParameter head))
    else if token.isMark ")" then some (reading.enter (.bodyOpen head))
    else none
  | .bodyOpen head =>
    if token.isMark "\x7b" then some (reading.enter (.statement ⟨head, []⟩)) else none
  | .statement body =>
    if token.isMark "\x7d" then some (reading.pushFunction (body.function token))
    else if token.isKeyword "return" then
      some (reading.enter (.operand body (.fresh (.returned token))))
    else if token.isIdentifier then some (reading.enter (.assignmentEquals body token))
    else none
  | .assignmentEquals body target =>
    if token.isMark "=" then some (reading.enter (.operand body (.fresh (.assigned target))))
    else none
  | .operand body level => (enterOperand? body level token).map reading.enter
  -- Behind the opening of a call there may be no argument at all.
  | .firstArgument body level callee =>
    if token.isMark ")" then
      some (reading.enter (.afterOperand body level
        (.call (callee.span.join token.span) callee.text [])))
    else
      let purpose := .argument callee [] level.sum level.product level.purpose
      (enterOperand? body (.fresh purpose) token).map reading.enter
  -- A name is a call only if parentheses follow it.
  | .afterName body level name =>
    if token.isMark "(" then some (reading.enter (.firstArgument body level name))
    else (leaveOperand? body level (.name name.span name.text) token).map reading.enter
  | .afterOperand body level operand => (leaveOperand? body level operand token).map reading.enter

/-- Reads tokens up to the first that is not admitted. -/
def steps (reading : Reading) : List Token → Except Refusal Reading
  | [] => .ok reading
  | token :: rest =>
    match reading.step? token with
    | some next => next.steps rest
    | none => .error (.unexpected reading.state.expected token)

/-- Ends the input, which is admitted only between declarations. -/
def finish (reading : Reading) (file : String) (first stop : Token) :
    Except Refusal (Program Span) :=
  match reading.state with
  | .declaration =>
    .ok ⟨first.span.join stop.span, file, reading.constants, reading.functions⟩
  | state => .error (.unexpected state.expected stop)

end Reading

/-- The program that tokens form; what follows the first end of input is not looked at. -/
def Program.read (file : String) (tokens : List Token) : Except Refusal (Program Span) :=
  -- The last token has to end the input, though an earlier one may do so first.
  match tokens, tokens.find? Token.isFinish with
  | first :: _, some stop =>
    if (tokens.getLast?.map Token.isFinish).getD false then do
      let reading ← Reading.start.steps (tokens.takeWhile (! ·.isFinish))
      reading.finish file first stop
    else .error .unended
  | _, _ => .error .unended

end DoubleLang
