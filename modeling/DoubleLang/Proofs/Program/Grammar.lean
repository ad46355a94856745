import DoubleLang.Program.Reading

/-!
The grammar of programs over tokens, with the tree that each derivation stands for.

Repetitions group to the left, so that one more operand, argument, statement or declaration always
comes in at the end. A node of a tree spans from the first of its tokens to the last.
-/

namespace DoubleLang.Grammar

/-- A token that is the sign of an operation. -/
def IsSign (token : Token) (op : BinaryOp) : Prop :=
  token.kind = .operator ∧ token.text = op.symbol

mutual

/-- A factor is a number, a name, a call or an expression in parentheses. -/
inductive Factor : List Token → Expr Span → Prop where
  | number {token : Token} (read : token.isNumber = true) :
      Factor [token] (.literal token.span token.text)
  | name {token : Token} (read : token.isIdentifier = true) :
      Factor [token] (.name token.span token.text)
  | callEmpty {callee opening closing : Token} (named : callee.isIdentifier = true)
      (opens : opening.isMark "(" = true) (closes : closing.isMark ")" = true) :
      Factor [callee, opening, closing]
        (.call (callee.span.join closing.span) callee.text [])
  | call {callee opening closing : Token} {words : List Token} {args : List (Expr Span)}
      (named : callee.isIdentifier = true) (opens : opening.isMark "(" = true)
      (inside : Arguments words args) (closes : closing.isMark ")" = true) :
      Factor (callee :: opening :: (words ++ [closing]))
        (.call (callee.span.join closing.span) callee.text args)
  | group {opening closing : Token} {words : List Token} {inner : Expr Span}
      (opens : opening.isMark "(" = true) (inside : Sum words inner)
      (closes : closing.isMark ")" = true) :
      Factor (opening :: (words ++ [closing])) (.group (opening.span.join closing.span) inner)

/-- A term is factors with signs of products and quotients between them. -/
inductive Term : List Token → Expr Span → Prop where
  | factor {words : List Token} {expr : Expr Span} (only : Factor words expr) : Term words expr
  | operation {words more : List Token} {left right : Expr Span} {sign : Token} {op : BinaryOp}
      (first : Term words left) (signed : IsSign sign op) (tight : op ∈ [.multiply, .divide])
      (last : Factor more right) :
      Term (words ++ sign :: more) (.binary (left.note.join right.note) op left right)

/-- An expression is terms with signs of sums and differences between them. -/
inductive Sum : List Token → Expr Span → Prop where
  | term {words : List Token} {expr : Expr Span} (only : Term words expr) : Sum words expr
  | operation {words more : List Token} {left right : Expr Span} {sign : Token} {op : BinaryOp}
      (first : Sum words left) (signed : IsSign sign op) (loose : op ∈ [.add, .subtract])
      (last : Term more right) :
      Sum (words ++ sign :: more) (.binary (left.note.join right.note) op left right)

/-- Arguments are expressions with commas between them, at least one. -/
inductive Arguments : List Token → List (Expr Span) → Prop where
  | one {words : List Token} {arg : Expr Span} (only : Sum words arg) : Arguments words [arg]
  | more {words more : List Token} {args : List (Expr Span)} {arg : Expr Span} {comma : Token}
      (first : Arguments words args) (divides : comma.isMark "," = true) (last : Sum more arg) :
      Arguments (words ++ comma :: more) (args ++ [arg])

end

/-- A statement is an assignment or a return, closed by a semicolon. -/
inductive Step : List Token → Statement Span → Prop where
  | assign {target equals closing : Token} {words : List Token} {value : Expr Span}
      (named : target.isIdentifier = true) (gets : equals.isMark "=" = true)
      (inside : Sum words value) (closes : closing.isMark ";" = true) :
      Step (target :: equals :: (words ++ [closing]))
        (.assign (target.span.join closing.span) target.text value)
  | returns {keyword closing : Token} {words : List Token} {value : Expr Span}
      (leaves : keyword.isKeyword "return" = true) (inside : Sum words value)
      (closes : closing.isMark ";" = true) :
      Step (keyword :: (words ++ [closing])) (.returns (keyword.span.join closing.span) value)

/-- Any number of statements, one after another. -/
inductive Steps : List Token → List (Statement Span) → Prop where
  | none : Steps [] []
  | more {words more : List Token} {statements : List (Statement Span)}
      {statement : Statement Span} (first : Steps words statements) (last : Step more statement) :
      Steps (words ++ more) (statements ++ [statement])

/-- Parameters are identifiers with commas between them, at least one. -/
inductive Parameters : List Token → List (Parameter Span) → Prop where
  | one {name : Token} (named : name.isIdentifier = true) :
      Parameters [name] [⟨name.span, name.text⟩]
  | more {words : List Token} {params : List (Parameter Span)} {comma name : Token}
      (first : Parameters words params) (divides : comma.isMark "," = true)
      (named : name.isIdentifier = true) :
      Parameters (words ++ [comma, name]) (params ++ [⟨name.span, name.text⟩])

/-- The parameters of a function, of which there may be none. -/
inductive ParameterList : List Token → List (Parameter Span) → Prop where
  | none : ParameterList [] []
  | some {words : List Token} {params : List (Parameter Span)} (listed : Parameters words params) :
      ParameterList words params

/-- A constant is a name, an equals sign, a number and a semicolon. -/
inductive ConstantDeclaration : List Token → Constant Span → Prop where
  | mk {name equals value closing : Token} (named : name.isIdentifier = true)
      (gets : equals.isMark "=" = true) (read : value.isNumber = true)
      (closes : closing.isMark ";" = true) :
      ConstantDeclaration [name, equals, value, closing]
        ⟨name.span.join closing.span, name.text, value.text⟩

/-- A function is its keyword and name, parameters in parentheses, and statements in braces. -/
inductive FunctionDeclaration : List Token → Function Span → Prop where
  | mk {keyword name opening closing bodyOpening bodyClosing : Token} {words more : List Token}
      {params : List (Parameter Span)} {statements : List (Statement Span)}
      (starts : keyword.isKeyword "fun" = true) (named : name.isIdentifier = true)
      (opens : opening.isMark "(" = true) (listed : ParameterList words params)
      (closes : closing.isMark ")" = true) (bodyOpens : bodyOpening.isMark "\x7b" = true)
      (steps : Steps more statements) (bodyCloses : bodyClosing.isMark "\x7d" = true) :
      FunctionDeclaration
        (keyword :: name :: opening :: (words ++ closing :: bodyOpening :: (more ++ [bodyClosing])))
        ⟨keyword.span.join bodyClosing.span, name.text, params, statements⟩

/-- A program is constants and functions in any order; each kind is listed as it comes. -/
inductive Declarations : List Token → List (Constant Span) → List (Function Span) → Prop where
  | none : Declarations [] [] []
  | constant {words more : List Token} {constants : List (Constant Span)}
      {functions : List (Function Span)} {constant : Constant Span}
      (first : Declarations words constants functions)
      (last : ConstantDeclaration more constant) :
      Declarations (words ++ more) (constants ++ [constant]) functions
  | function {words more : List Token} {constants : List (Constant Span)}
      {functions : List (Function Span)} {function : Function Span}
      (first : Declarations words constants functions)
      (last : FunctionDeclaration more function) :
      Declarations (words ++ more) constants (functions ++ [function])

end DoubleLang.Grammar
