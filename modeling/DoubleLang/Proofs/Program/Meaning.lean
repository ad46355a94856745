import DoubleLang.Program
import DoubleLang.Table

/-!
What programs compute, over any kind of doubles.

Statements run in order up to the first return, and arguments are values. Calls may nest without
end, so a value is one that is found within some depth of calls.
-/

namespace DoubleLang

/-- Doubles as programs know them: the reading of numbers and the four operations. -/
structure Arithmetic (D : Type) where
  read : String → D
  add : D → D → D
  subtract : D → D → D
  multiply : D → D → D
  divide : D → D → D

/-- The outcome of an operation. -/
def Arithmetic.apply {D : Type} (arithmetic : Arithmetic D) : BinaryOp → D → D → D
  | .add => arithmetic.add
  | .subtract => arithmetic.subtract
  | .multiply => arithmetic.multiply
  | .divide => arithmetic.divide

/-- What a function body refers to besides its own names: constants and functions. -/
structure Context (D : Type) extends Arithmetic D where
  constant? : String → Option D
  call? : String → List D → Option D

variable {D α : Type}

mutual

/-- The value of an expression; a name is one of the store, or else a constant. -/
def Expr.value? (context : Context D) (store : Table D) : Expr α → Option D
  | .literal _ text => some (context.read text)
  | .name _ known => (store.get? known).or (context.constant? known)
  | .binary _ op left right => do
    let first ← left.value? context store
    let second ← right.value? context store
    return context.apply op first second
  | .call _ callee args => do
    -- All arguments have their values before the function is entered.
    let values ← Expr.values? context store args
    context.call? callee values
  | .group _ inner => inner.value? context store

/-- The values of expressions, from left to right. -/
def Expr.values? (context : Context D) (store : Table D) : List (Expr α) → Option (List D)
  | [] => some []
  | arg :: rest => do
    let value ← arg.value? context store
    let values ← Expr.values? context store rest
    return value :: values

end

/-- What statements return; there is nothing to return at their end. -/
def Statement.result? (context : Context D) (store : Table D) : List (Statement α) → Option D
  | [] => none
  -- Nothing behind a return is ever looked at.
  | .returns _ value :: _ => value.value? context store
  | .assign _ target value :: rest => do
    -- An assignment needs a value even where nothing reads its target.
    let found ← value.value? context store
    Statement.result? context (store.set target found) rest

/-- What a function returns for as many arguments as it has parameters. -/
def Function.result? (context : Context D) (function : Function α) (args : List D) : Option D :=
  -- The store starts with the parameters, each with its argument.
  if args.length = function.arity then
    Statement.result? context ⟨(function.params.map (·.name)).zip args⟩ function.body
  else none

namespace Program

/-- The value of a constant of a program. -/
def constant? (arithmetic : Arithmetic D) (program : Program α) (name : String) : Option D :=
  (program.constants.find? (·.name == name)).map (arithmetic.read ·.value)

/-- What a function of a program returns, with calls nested up to a depth. -/
def result? (arithmetic : Arithmetic D) (program : Program α) :
    Nat → String → List D → Option D
  -- Calls that nest deeper than this are given up.
  | 0, _, _ => none
  | depth + 1, name, args => do
    let function ← program.functions.find? (·.name == name)
    function.result?
      ⟨arithmetic, program.constant? arithmetic, program.result? arithmetic depth⟩ args

/-- A function of a program has a value for arguments. -/
def Gives (arithmetic : Arithmetic D) (program : Program α) (name : String) (args : List D)
    (value : D) : Prop :=
  ∃ depth, program.result? arithmetic depth name args = some value

end Program

end DoubleLang
