/-! Bytes read as text, with a replacement character for each sequence that encodes nothing. -/

namespace DoubleLang.Text

/-- A character of several bytes that has been begun. -/
structure Begun where
  /-- How many more bytes belong to it. -/
  owed : Nat
  /-- The least value the next byte may have. -/
  low : UInt8
  /-- The greatest value the next byte may have. -/
  high : UInt8
  /-- The bits of its code read so far. -/
  bits : Nat
  deriving DecidableEq, Repr

/-- The character that stands for bytes that encode nothing. -/
def replacement : Char := '�'

/-- A byte where a character starts: it is one, begins one, or encodes nothing. -/
def firstByte (byte : UInt8) : List Char × Option Begun :=
  let code := byte.toNat
  if byte ≤ 0x7F then ([Char.ofNat code], none)
  else if 0xC2 ≤ byte ∧ byte ≤ 0xDF then ([], some ⟨1, 0x80, 0xBF, code - 0xC0⟩)
  -- The bounds on the second byte shut out overlong forms, halves of pairs and codes past the last.
  else if 0xE0 ≤ byte ∧ byte ≤ 0xEF then
    let low := if byte = 0xE0 then 0xA0 else 0x80
    let high := if byte = 0xED then 0x9F else 0xBF
    ([], some ⟨2, low, high, code - 0xE0⟩)
  else if 0xF0 ≤ byte ∧ byte ≤ 0xF4 then
    let low := if byte = 0xF0 then 0x90 else 0x80
    let high := if byte = 0xF4 then 0x8F else 0xBF
    ([], some ⟨3, low, high, code - 0xF0⟩)
  else ([replacement], none)

/-- One byte more: the characters it completes and the one it leaves begun. -/
def nextByte (begun : Option Begun) (byte : UInt8) : List Char × Option Begun :=
  match begun with
  | none => firstByte byte
  | some part =>
    if part.low ≤ byte ∧ byte ≤ part.high then
      let bits := part.bits * 0x40 + (byte.toNat - 0x80)
      if part.owed ≤ 1 then ([Char.ofNat bits], none)
      else ([], some ⟨part.owed - 1, 0x80, 0xBF, bits⟩)
    else
      -- The bytes before this one encode nothing, and this one starts afresh.
      let (read, after) := firstByte byte
      (replacement :: read, after)

/-- The text of the bytes that follow a begun character. -/
def decodeFrom (begun : Option Begun) : List UInt8 → List Char
  -- A character that the end of the bytes cuts off encodes nothing.
  | [] => if begun.isSome then [replacement] else []
  | byte :: rest =>
    let (read, after) := nextByte begun byte
    read ++ decodeFrom after rest

/-- The text that bytes encode, each longest invalid sequence giving one replacement character. -/
def decode (bytes : List UInt8) : String :=
  String.ofList (decodeFrom none bytes)

/-- The bytes of a text. -/
def encode (text : String) : List UInt8 :=
  text.toUTF8.data.toList

end DoubleLang.Text
