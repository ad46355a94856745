import DoubleLang.Source.Position

/-! The words of the language, each with its kind, its text and the span it came from. -/

namespace DoubleLang

/-- What sort of word a token is. -/
inductive Token.Kind where
  | identifier
  | number
  | operator
  | punctuation
  | keyword
  /-- The end of the input. -/
  | finish
  deriving DecidableEq, Repr, Inhabited

/-- One word of a program. -/
structure Token where
  kind : Token.Kind
  text : String
  span : Span
  deriving DecidableEq, Repr, Inhabited

namespace Token

/-- Whether a token is the punctuation mark with the given text. -/
def isMark (token : Token) (text : String) : Bool :=
  token.kind == .punctuation && token.text == text

/-- Whether a token is the keyword with the given text. -/
def isKeyword (token : Token) (text : String) : Bool :=
  token.kind == .keyword && token.text == text

/-- Whether a token is an identifier, whatever its text. -/
def isIdentifier (token : Token) : Bool :=
  token.kind == .identifier

/-- Whether a token is a number, whatever its text. -/
def isNumber (token : Token) : Bool :=
  token.kind == .number

/-- Whether a token ends the input. -/
def isFinish (token : Token) : Bool :=
  token.kind == .finish

/-- How a token is named in a report. -/
def described (token : Token) : String :=
  if token.isFinish then "end of input" else "\"" ++ token.text ++ "\""

end Token

end DoubleLang
