import DoubleLang.Diagnostic

/-! The rules a program can break, and how each breach is reported. -/

namespace DoubleLang

/-- A breach of a rule about names or arities. -/
inductive Violation where
  | duplicateConstant (name : String)
  | duplicateFunction (name : String)
  /-- A constant has the name of a pool entry. -/
  | reservedConstant (name : String)
  | functionNamesConstant (name : String)
  | localNamesConstant (name : String)
  | localNamesFunction (name : String)
  | parameterNamesConstant (function name : String)
  | parameterNamesFunction (function name : String)
  | duplicateParameter (function name : String)
  | unknownVariable (function name : String)
  | unknownFunction (function name : String)
  | arityMismatch (callee caller : String) (expected found : Int)
  | mainWithParameters
  deriving DecidableEq, Repr

namespace Violation

/-- The code of a breach. -/
def code : Violation → Code
  | .duplicateConstant _ => .duplicateConstant
  | .duplicateFunction _ => .duplicateFunction
  | .reservedConstant _ => .reservedConstant
  | .functionNamesConstant _ => .functionNamesConstant
  | .localNamesConstant _ => .localNamesConstant
  | .localNamesFunction _ => .localNamesFunction
  | .parameterNamesConstant _ _ => .parameterNamesConstant
  | .parameterNamesFunction _ _ => .parameterNamesFunction
  | .duplicateParameter _ _ => .duplicateParameter
  | .unknownVariable _ _ => .unknownVariable
  | .unknownFunction _ _ => .unknownFunction
  | .arityMismatch _ _ _ _ => .arityMismatch
  | .mainWithParameters => .mainWithParameters

/-- The wording of a breach. -/
def message : Violation → String
  | .duplicateConstant name => "constant '" ++ name ++ "' is defined twice"
  | .duplicateFunction name => "function '" ++ name ++ "' is defined twice"
  | .reservedConstant name =>
    "cant define constant '" ++ name ++ "' (do not define it manually)"
  | .functionNamesConstant name =>
    "cant define function '" ++ name ++ "': there is constant with that name"
  | .localNamesConstant name =>
    "cant create local variable with name '" ++ name ++ "': there is constant with that name"
  | .localNamesFunction name =>
    "cant create local variable with name '" ++ name ++ "': there is function with that name"
  | .parameterNamesConstant function name =>
    "cant create argument for '" ++ function ++ "' with name '" ++ name ++
      "': there is constant with that name"
  | .parameterNamesFunction function name =>
    "cant create argument for '" ++ function ++ "' with name '" ++ name ++
      "': there is function with that name"
  | .duplicateParameter function name =>
    "redefinition of argument '" ++ name ++ "' in function '" ++ function ++ "'"
  | .unknownVariable function name =>
    "unknown variable '" ++ name ++ "' in function '" ++ function ++ "'"
  | .unknownFunction function name =>
    "unknown function call '" ++ name ++ "' in '" ++ function ++ "'"
  | .arityMismatch callee caller expected found =>
    "invalid arguments count for function call '" ++ callee ++ "': expected " ++
      toString expected ++ ", but got " ++ toString found ++ " (in function '" ++ caller ++ "')"
  | .mainWithParameters => "main function cant have any arguments"

end Violation

/-- A breach at the place of the construct that commits it. -/
structure Offence where
  violation : Violation
  span : Span
  deriving DecidableEq, Repr

/-- The report of an offence. -/
def Offence.diagnostic (offence : Offence) : Diagnostic :=
  .errorAt offence.violation.code offence.span offence.violation.message

end DoubleLang
