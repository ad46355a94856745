import DoubleLang.Text.Number
import DoubleLang.Token.Piece

/-! The names of pool entries, which hold the literals of function bodies. -/

namespace DoubleLang.PoolName

/-- What every pool name starts with. -/
def mark : String := "_c_const_"

/-- The pool name that a number gives, as a double holds it. -/
def ofNumber (function : String) (index : Int) : String :=
  mark ++ function ++ "_" ++ Number.text index

/-- The pool name of a literal of a function, by how many literals the function has before it. No
function has so many that a double would not hold the count. -/
def entry (function : String) (number : Nat) : String :=
  mark ++ function ++ "_" ++ toString number

/-- Whether a text is an identifier, an underscore and digits. -/
def hasShape (text : List Char) : Bool :=
  -- The digits at the end are the number, and the underscore before them divides.
  let reversed := text.reverse
  match reversed.dropWhile Char.isDigit with
  | '_' :: function =>
    !(reversed.takeWhile Char.isDigit).isEmpty && Piece.isIdentifierText function.reverse
  | _ => false

/-- Whether a name has the shape of a pool name, so that no constant may take it. -/
def isReserved (name : String) : Bool :=
  let text := name.toList
  mark.toList.isPrefixOf text && hasShape (text.drop mark.toList.length)

end DoubleLang.PoolName
