import DoubleLang.Diagnostic
import DoubleLang.Token.Cut

/-! Tokens of a text: the lexemes of its cut, placed where they stand. -/

namespace DoubleLang

namespace Token

/-- The tokens among pieces that follow one another from a position. -/
def place (file : String) (start : Position) : List Piece → List Token
  | [] => []
  | piece :: rest =>
    -- Blanks and comments give no token, and still move what follows.
    let stop := start.after piece.text
    match piece with
    | .lexeme kind text => ⟨kind, String.ofList text, ⟨file, start, stop⟩⟩ :: place file stop rest
    | _ => place file stop rest

/-- The place at which a text cannot be cut any further, and why. -/
structure ScanError where
  fault : Piece.Fault
  place : Position
  deriving DecidableEq, Repr

/-- The report of a scan that failed in a file. -/
def ScanError.diagnostic (file : String) (error : ScanError) : Diagnostic :=
  ⟨.lexical, .error, error.fault.message, file, some error.place⟩

/-- The tokens of a text, closed by one for its end. -/
def scan (file : String) (text : String) : Except ScanError (List Token) :=
  -- A fault stands right behind the last piece that could be cut.
  let cut := Cut.ofText text.toList
  let stop := Position.start.after cut.covered
  match cut.fault with
  | some fault => .error ⟨fault, stop⟩
  | none => .ok (place file .start cut.pieces ++ [⟨.finish, "", ⟨file, stop, stop⟩⟩])

end Token

end DoubleLang
