/-! The syntax tree of a program; each node carries a note, such as the span it was read from. -/

namespace DoubleLang

/-- The four operations. -/
inductive BinaryOp where
  | add
  | subtract
  | multiply
  | divide
  deriving DecidableEq, Repr

/-- The sign of an operation. -/
def BinaryOp.symbol : BinaryOp → String
  | .add => "+"
  | .subtract => "-"
  | .multiply => "*"
  | .divide => "/"

/-- An expression over doubles. -/
inductive Expr (α : Type) where
  /-- A number, by its text. -/
  | literal (note : α) (text : String)
  | name (note : α) (name : String)
  | binary (note : α) (op : BinaryOp) (left right : Expr α)
  | call (note : α) (callee : String) (args : List (Expr α))
  /-- An expression in parentheses. -/
  | group (note : α) (inner : Expr α)
  deriving Repr

/-- The note of an expression. -/
def Expr.note {α : Type} : Expr α → α
  | .literal note _ => note
  | .name note _ => note
  | .binary note _ _ _ => note
  | .call note _ _ => note
  | .group note _ => note

/-- A step of a function body. -/
inductive Statement (α : Type) where
  | assign (note : α) (target : String) (value : Expr α)
  | returns (note : α) (value : Expr α)
  deriving Repr

namespace Statement

/-- The expression of a statement. -/
def value {α : Type} : Statement α → Expr α
  | .assign _ _ value => value
  | .returns _ value => value

/-- Whether a statement leaves the function. -/
def isReturn {α : Type} : Statement α → Bool
  | .assign _ _ _ => false
  | .returns _ _ => true

end Statement

/-- A parameter of a function. -/
structure Parameter (α : Type) where
  note : α
  name : String
  deriving Repr, DecidableEq

/-- A global constant and the text of its value. -/
structure Constant (α : Type) where
  note : α
  name : String
  value : String
  deriving Repr, DecidableEq

/-- A function with its parameters and its body. -/
structure Function (α : Type) where
  note : α
  name : String
  params : List (Parameter α)
  body : List (Statement α)
  deriving Repr

/-- The number of parameters of a function. -/
def Function.arity {α : Type} (function : Function α) : Nat :=
  function.params.length

/-- A program: its constants and its functions, each in source order. -/
structure Program (α : Type) where
  note : α
  file : String
  constants : List (Constant α)
  functions : List (Function α)
  deriving Repr

mutual

/-- The texts of the literals of an expression, from left to right. -/
def Expr.literals {α : Type} : Expr α → List String
  | .literal _ text => [text]
  | .name _ _ => []
  | .binary _ _ left right => left.literals ++ right.literals
  | .call _ _ args => Expr.literalsOfAll args
  | .group _ inner => inner.literals

/-- The texts of the literals of expressions, from left to right. -/
def Expr.literalsOfAll {α : Type} : List (Expr α) → List String
  | [] => []
  | arg :: rest => arg.literals ++ Expr.literalsOfAll rest

end

mutual

/-- The number of literals of an expression. -/
def Expr.literalCount {α : Type} : Expr α → Nat
  | .literal _ _ => 1
  | .name _ _ => 0
  | .binary _ _ left right => left.literalCount + right.literalCount
  | .call _ _ args => Expr.literalCountOfAll args
  | .group _ inner => inner.literalCount

/-- The number of literals of expressions. -/
def Expr.literalCountOfAll {α : Type} : List (Expr α) → Nat
  | [] => 0
  | arg :: rest => arg.literalCount + Expr.literalCountOfAll rest

end

mutual

/-- The number of literals is that of their texts. -/
theorem Expr.length_literals {α : Type} : ∀ expr : Expr α, expr.literals.length = expr.literalCount
  -- Both go through the expression in the same way.
  | .literal _ _ => rfl
  | .name _ _ => rfl
  | .binary _ _ left right => by
    simp [Expr.literals, Expr.literalCount, length_literals left, length_literals right]
  | .call _ _ args => by
    simpa [Expr.literals, Expr.literalCount] using length_literalsOfAll args
  | .group _ inner => by
    simpa [Expr.literals, Expr.literalCount] using length_literals inner

/-- The number of literals is that of their texts, for expressions in a row. -/
theorem Expr.length_literalsOfAll {α : Type} :
    ∀ args : List (Expr α), (Expr.literalsOfAll args).length = Expr.literalCountOfAll args
  | [] => rfl
  | arg :: rest => by
    simp [Expr.literalsOfAll, Expr.literalCountOfAll, length_literals arg,
      length_literalsOfAll rest]

end

mutual

/-- The names an expression reads, from left to right; a called function is not among them. -/
def Expr.names {α : Type} : Expr α → List String
  | .literal _ _ => []
  | .name _ read => [read]
  | .binary _ _ left right => left.names ++ right.names
  | .call _ _ args => Expr.namesOfAll args
  | .group _ inner => inner.names

/-- The names expressions read, from left to right. -/
def Expr.namesOfAll {α : Type} : List (Expr α) → List String
  | [] => []
  | arg :: rest => arg.names ++ Expr.namesOfAll rest

end

/-- The texts of the literals of a whole function body, in source order. -/
def Function.literals {α : Type} (function : Function α) : List String :=
  function.body.flatMap (·.value.literals)

end DoubleLang
