import DoubleLang.Source.Position

/-! What the compiler reports: diagnostics with a stable identifier and, when known, a place. -/

namespace DoubleLang

/-- How grave a diagnostic is. -/
inductive Severity where
  | error
  | warning
  | info
  deriving DecidableEq, Repr

/-- The word for a severity in reports. -/
def Severity.text : Severity → String
  | .error => "error"
  | .warning => "warning"
  | .info => "info"

/-- What a diagnostic is about. -/
inductive Code where
  /-- Anything without a code of its own. -/
  | unclassified
  /-- The entry file cannot be read. -/
  | unreadable
  /-- A character that starts no lexeme, or a comment without end. -/
  | lexical
  /-- Tokens outside the grammar. -/
  | grammatical
  | duplicateConstant
  | duplicateFunction
  | reservedConstant
  | functionNamesConstant
  | localNamesConstant
  | localNamesFunction
  | parameterNamesConstant
  | parameterNamesFunction
  | duplicateParameter
  | unknownVariable
  | unknownFunction
  | arityMismatch
  | mainWithParameters
  deriving DecidableEq, Repr

namespace Code

/-- The stable identifier of a code. -/
def id : Code → String
  | .unclassified => "DBL000"
  | .unreadable => "DBL001"
  | .lexical => "DBL100"
  | .grammatical => "DBL200"
  | .duplicateConstant => "DBL401"
  | .duplicateFunction => "DBL402"
  | .reservedConstant => "DBL403"
  | .functionNamesConstant => "DBL404"
  | .localNamesConstant => "DBL405"
  | .localNamesFunction => "DBL406"
  | .parameterNamesConstant => "DBL407"
  | .parameterNamesFunction => "DBL408"
  | .duplicateParameter => "DBL409"
  | .unknownVariable => "DBL410"
  | .unknownFunction => "DBL411"
  | .arityMismatch => "DBL412"
  | .mainWithParameters => "DBL413"

end Code

/-- One report about a file. -/
structure Diagnostic where
  code : Code
  severity : Severity
  message : String
  file : String
  /-- Where in the file, when known. -/
  place : Option Position
  deriving DecidableEq, Repr

namespace Diagnostic

/-- An error at the start of a span. -/
def errorAt (code : Code) (span : Span) (message : String) : Diagnostic :=
  ⟨code, .error, message, span.file, some span.start⟩

/-- The line on which a diagnostic is shown, ended by a line feed. -/
def render (report : Diagnostic) : String :=
  -- A report without a place names its file alone.
  let place := match report.place with
    | some place => report.file ++ ":" ++ toString place.line ++ ":" ++ toString place.column
    | none => report.file
  place ++ ": " ++ report.severity.text ++ ": [" ++ report.code.id ++ "] " ++ report.message ++ "\n"

/-- Whether any of the diagnostics is an error. -/
def anyError (log : List Diagnostic) : Bool :=
  log.any (·.severity == .error)

/-- Adds the diagnostic of a stage that failed to the end of a log, and gives what it made. -/
def record {α : Type} (log : List Diagnostic) : Except Diagnostic α → Option α × List Diagnostic
  | .ok value => (some value, log)
  | .error report => (none, log ++ [report])

end Diagnostic

end DoubleLang
