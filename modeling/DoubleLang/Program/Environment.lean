import DoubleLang.PoolName
import DoubleLang.Program
import DoubleLang.Program.Violation
import DoubleLang.Table

/-!
The names of a checked program.

A program is checked in a fixed order, and the first offence ends the check: constants, functions,
parameters of every function, the main function, and at last the bodies.
-/

namespace DoubleLang

/-- How a name comes to be known in a function. -/
inductive Role where
  | parameter
  | assigned
  deriving DecidableEq, Repr

/-- The parameters and assigned names of a function. -/
abbrev Scope := Table Role

/-- The names known everywhere: constants with their values, functions with their arities. -/
structure Globals where
  constants : Table String
  arities : Table Nat
  deriving DecidableEq, Repr

/-- All names of a program: the global ones, and the scope of each function. -/
structure Environment extends Globals where
  scopes : Table Scope
  deriving DecidableEq, Repr

/-- The scope of a function, empty if it has none. -/
def Environment.scope (env : Environment) (function : String) : Scope :=
  (env.scopes.get? function).getD .empty

namespace Check

/-- Takes in a constant. -/
def constant (known : Table String) (constant : Constant Span) :
    Except Offence (Table String) :=
  if known.contains constant.name then
    .error ⟨.duplicateConstant constant.name, constant.note⟩
  else if PoolName.isReserved constant.name then
    .error ⟨.reservedConstant constant.name, constant.note⟩
  else .ok (known.set constant.name constant.value)

/-- Takes in a function beside constants. -/
def function (constants : Table String) (known : Table Nat) (function : Function Span) :
    Except Offence (Table Nat) :=
  if known.contains function.name then
    .error ⟨.duplicateFunction function.name, function.note⟩
  else if constants.contains function.name then
    .error ⟨.functionNamesConstant function.name, function.note⟩
  else .ok (known.set function.name function.arity)

/-- Takes in a parameter of a function. -/
def parameter (globals : Globals) (function : String) (known : Scope)
    (parameter : Parameter Span) : Except Offence Scope :=
  if known.contains parameter.name then
    .error ⟨.duplicateParameter function parameter.name, parameter.note⟩
  else if globals.constants.contains parameter.name then
    .error ⟨.parameterNamesConstant function parameter.name, parameter.note⟩
  else if globals.arities.contains parameter.name then
    .error ⟨.parameterNamesFunction function parameter.name, parameter.note⟩
  else .ok (known.set parameter.name .parameter)

/-- The scope a function starts with: its parameters. -/
def parameters (globals : Globals) (function : Function Span) : Except Offence Scope :=
  function.params.foldlM (parameter globals function.name) .empty

/-- The main function, if there is one, has no parameters. -/
def mainFunction (functions : List (Function Span)) : Except Offence Unit :=
  -- Names of functions are distinct by now, so there is one at most.
  match functions.find? (·.name == "main") with
  | some main =>
    if main.params.isEmpty then .ok () else .error ⟨.mainWithParameters, main.note⟩
  | none => .ok ()

mutual

/-- Every name an expression reads is known, and every call fits its function. -/
def expr (globals : Globals) (function : String) (scope : Scope) :
    Expr Span → Except Offence Unit
  | .literal _ _ => .ok ()
  | .name span name =>
    if scope.contains name || globals.constants.contains name then .ok ()
    else .error ⟨.unknownVariable function name, span⟩
  | .binary _ _ left right => do
    expr globals function scope left
    expr globals function scope right
  | .call span callee args =>
    -- A call is held against its function before its arguments are looked at.
    match globals.arities.get? callee with
    | none => .error ⟨.unknownFunction function callee, span⟩
    | some arity =>
      if arity = args.length then exprs globals function scope args
      else .error ⟨.arityMismatch callee function arity args.length, span⟩
  | .group _ inner => expr globals function scope inner

/-- The expressions are in order, from left to right. -/
def exprs (globals : Globals) (function : String) (scope : Scope) :
    List (Expr Span) → Except Offence Unit
  | [] => .ok ()
  | arg :: rest => do
    expr globals function scope arg
    exprs globals function scope rest

end

/-- A statement is in order; the target of an assignment is known from the next statement on. -/
def statement (globals : Globals) (function : String) (scope : Scope) :
    Statement Span → Except Offence Scope
  | .returns _ value => do
    expr globals function scope value
    return scope
  | .assign span target value =>
    -- The target is held against the global names before the value is looked at.
    if globals.constants.contains target then .error ⟨.localNamesConstant target, span⟩
    else if globals.arities.contains target then .error ⟨.localNamesFunction target, span⟩
    else do
      expr globals function scope value
      return if scope.contains target then scope else scope.set target .assigned

/-- The scope a function ends with: its parameters and its assigned names. -/
def body (globals : Globals) (function : Function Span) (start : Scope) : Except Offence Scope :=
  function.body.foldlM (statement globals function.name) start

end Check

/-- The environment of a program that keeps the rules, or its first offence. -/
def Program.check (program : Program Span) : Except Offence Environment := do
  let constants ← program.constants.foldlM Check.constant .empty
  let arities ← program.functions.foldlM (Check.function constants) .empty
  let globals : Globals := ⟨constants, arities⟩
  -- Parameters of all functions are checked before any body is.
  let starts ← program.functions.mapM (Check.parameters globals)
  Check.mainFunction program.functions
  let scopes ← (program.functions.zip starts).mapM fun (function, start) => do
    return (function.name, ← Check.body globals function start)
  return ⟨globals, ⟨scopes⟩⟩

end DoubleLang
