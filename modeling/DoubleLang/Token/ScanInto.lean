import DoubleLang.Logged
import DoubleLang.Token.Scan

/-!
Tokens taken off the front of a text one after the other.

Blanks and comments are passed over, and every other character starts a token or is reported. The
log takes that one report, and the scan gives up.
-/

namespace DoubleLang

namespace Token

/-- Whether the last of the tokens so far is an operand, so that a minus behind it is no sign. -/
def endInOperand (read : List Token) : Bool :=
  match read.getLast? with
  | none => false
  | some last => last.isIdentifier || last.isNumber || last.isMark ")"

/-- Reports what is wrong at a place of a file, and gives up. -/
def reportFault {α : Type} (file : String) (place : Position) (fault : Piece.Fault) : Logged α :=
  .giveUp ⟨.lexical, .error, fault.message, file, some place⟩

/-- Scans a text that begins at a place, behind the tokens so far. -/
def scanOn (file : String) (read : List Token) (place : Position) (text : List Char) :
    Logged (List Token) :=
  match text with
  | [] => pure (read ++ [⟨.finish, "", ⟨file, place, place⟩⟩])
  | c :: rest =>
    -- What is passed over or taken has at least the character in hand.
    let pass (passed : List Char) : Logged (List Token) :=
      scanOn file read (place.after passed) (rest.drop (passed.length - 1))
    let push (kind : Kind) (text : List Char) : Logged (List Token) :=
      let stop := place.after text
      scanOn file (read ++ [⟨kind, String.ofList text, ⟨file, place, stop⟩⟩]) stop
        (rest.drop (text.length - 1))
    if Text.isBlank c then pass [c]
    else if ['/', '/'].isPrefixOf (c :: rest) then pass (Piece.throughFeed (c :: rest))
    else if ['/', '*'].isPrefixOf (c :: rest) then
      match Piece.throughClose? (rest.drop 1) with
      | some closed => pass ('/' :: '*' :: closed)
      | none => reportFault file place .unclosedComment
    else
      -- Numbers come before all other lexemes, for their sign is a sign of an operation too.
      match Piece.number? (endInOperand read) (c :: rest) with
      | some number => push .number number
      | none =>
        let word := c :: rest.takeWhile Piece.continuesIdentifier
        if Piece.startsIdentifier c then
          push (if Piece.keywords.contains (String.ofList word) then .keyword else .identifier) word
        else if Piece.isOperator c then push .operator [c]
        else if Piece.isPunctuation c then push .punctuation [c]
        else reportFault file place (.unexpected (Text.leadUnit c))
termination_by text.length
decreasing_by all_goals simp only [List.length_drop, List.length_cons]; omega

/-- The tokens of a text, closed by one for its end; the log takes the report of what is none. -/
def scanInto (file text : String) : Logged (List Token) :=
  scanOn file [] .start text.toList

end Token

end DoubleLang
