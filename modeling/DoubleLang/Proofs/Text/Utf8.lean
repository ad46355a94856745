import DoubleLang.Text.Utf8

/-!
The bytes of a text, read as text, give the text back.

A character is one to four bytes, the first of which tells how many follow. Bounds on the second
byte refuse nothing that a character is written as.
-/

namespace DoubleLang.Text

/-- The bytes of a text are those of its characters in a row. -/
private theorem encode_eq (text : String) :
    encode text = text.toList.flatMap String.utf8EncodeChar := by
  -- The bytes of a text are defined by those of its characters, joined.
  have bytes : text.toByteArray = text.toList.utf8Encode := by
    rw [← String.toByteArray_ofList, String.ofList_toList]
  rw [encode, String.toUTF8, bytes, List.utf8Encode, List.toList_data_toByteArray]

/-- A byte is compared by its number. -/
private theorem ofNat_le_iff {number : Nat} {byte : UInt8} (small : number < 256) :
    UInt8.ofNat number ≤ byte ↔ number ≤ byte.toNat := by
  rw [UInt8.le_iff_toNat_le, UInt8.toNat_ofNat_of_lt' small]

/-- A byte is compared by its number. -/
private theorem le_ofNat_iff {number : Nat} {byte : UInt8} (small : number < 256) :
    byte ≤ UInt8.ofNat number ↔ byte.toNat ≤ number := by
  rw [UInt8.le_iff_toNat_le, UInt8.toNat_ofNat_of_lt' small]

/-- A byte is known by its number. -/
private theorem ofNat_eq_iff {number : Nat} {byte : UInt8} (small : number < 256) :
    UInt8.ofNat number = byte ↔ number = byte.toNat := by
  rw [← UInt8.toNat_inj, UInt8.toNat_ofNat_of_lt' small]

/-- A byte that is a character. -/
private theorem firstByte_one {code : Nat} (bound : code ≤ 0x7F) :
    firstByte (UInt8.ofNat code) = ([Char.ofNat code], none) := by
  have small : code < 256 := by omega
  simp [firstByte, ofNat_le_iff small, UInt8.toNat_ofNat_of_lt' small, bound]

/-- A byte that begins a character of two. -/
private theorem firstByte_two {code : Nat} (least : 0xC2 ≤ code) (most : code ≤ 0xDF) :
    firstByte (UInt8.ofNat code) = ([], some ⟨1, 0x80, 0xBF, code - 0xC0⟩) := by
  -- All tests before the one for two bytes fail.
  have small : code < 256 := by omega
  have more : ¬ code ≤ 0x7F := by omega
  simp [firstByte, ofNat_le_iff small, le_ofNat_iff small, UInt8.toNat_ofNat_of_lt' small, least,
    most, more]

/-- A byte that begins a character of three. -/
private theorem firstByte_three {code : Nat} (least : 0xE0 ≤ code) (most : code ≤ 0xEF) :
    firstByte (UInt8.ofNat code) = ([], some ⟨2, if code = 0xE0 then 0xA0 else 0x80,
      if code = 0xED then 0x9F else 0xBF, code - 0xE0⟩) := by
  -- All tests before the one for three bytes fail.
  have small : code < 256 := by omega
  have more : ¬ code ≤ 0x7F := by omega
  have beyond : ¬ code ≤ 0xDF := by omega
  simp [firstByte, ofNat_le_iff small, le_ofNat_iff small, ofNat_eq_iff small,
    UInt8.toNat_ofNat_of_lt' small, least, most, more, beyond]

/-- A byte that begins a character of four. -/
private theorem firstByte_four {code : Nat} (least : 0xF0 ≤ code) (most : code ≤ 0xF4) :
    firstByte (UInt8.ofNat code) = ([], some ⟨3, if code = 0xF0 then 0x90 else 0x80,
      if code = 0xF4 then 0x8F else 0xBF, code - 0xF0⟩) := by
  -- All tests before the one for four bytes fail.
  have small : code < 256 := by omega
  have more : ¬ code ≤ 0x7F := by omega
  have beyond : ¬ code ≤ 0xDF := by omega
  have farther : ¬ code ≤ 0xEF := by omega
  simp [firstByte, ofNat_le_iff small, le_ofNat_iff small, ofNat_eq_iff small,
    UInt8.toNat_ofNat_of_lt' small, least, most, more, beyond, farther]

/-- A byte within the bounds goes on with a character, and completes it if no other is owed. -/
private theorem nextByte_within {part : Begun} {code : Nat} (least : part.low.toNat ≤ code)
    (most : code ≤ part.high.toNat) :
    nextByte (some part) (UInt8.ofNat code) =
      if part.owed ≤ 1 then ([Char.ofNat (part.bits * 0x40 + (code - 0x80))], none)
      else ([], some ⟨part.owed - 1, 0x80, 0xBF, part.bits * 0x40 + (code - 0x80)⟩) := by
  -- The bounds are those that the first byte has set.
  have small : code < 256 := Nat.lt_of_le_of_lt most part.high.toNat_lt
  simp [nextByte, ofNat_le_iff small, le_ofNat_iff small, UInt8.toNat_ofNat_of_lt' small, least,
    most]

/-- Bytes are read one by one, each with the character that those before it have begun. -/
private theorem decodeFrom_cons (begun : Option Begun) (byte : UInt8) (rest : List UInt8) :
    decodeFrom begun (byte :: rest) =
      (nextByte begun byte).1 ++ decodeFrom (nextByte begun byte).2 rest :=
  rfl

/-- The last byte of a character completes it. -/
private theorem decodeFrom_last {low high : UInt8} {bits code : Nat} (least : low.toNat ≤ code)
    (most : code ≤ high.toNat) (rest : List UInt8) :
    decodeFrom (some ⟨1, low, high, bits⟩) (UInt8.ofNat code :: rest) =
      Char.ofNat (bits * 0x40 + (code - 0x80)) :: decodeFrom none rest := by
  rw [decodeFrom_cons, nextByte_within least most]
  rfl

/-- A byte in the middle of a character leaves it begun, with one byte less to come. -/
private theorem decodeFrom_middle {low high : UInt8} {owed bits code : Nat}
    (least : low.toNat ≤ code) (most : code ≤ high.toNat) (rest : List UInt8) :
    decodeFrom (some ⟨owed + 2, low, high, bits⟩) (UInt8.ofNat code :: rest) =
      decodeFrom (some ⟨owed + 1, 0x80, 0xBF, bits * 0x40 + (code - 0x80)⟩) rest := by
  -- More than one byte is owed, so this one does not complete the character.
  have more : ¬ owed + 2 ≤ 1 := by omega
  rw [decodeFrom_cons, nextByte_within least most, if_neg more]
  rfl

/-- A character is read back from its bytes. -/
private theorem decodeFrom_utf8EncodeChar (c : Char) (rest : List UInt8) :
    decodeFrom none (String.utf8EncodeChar c ++ rest) = c :: decodeFrom none rest := by
  -- A character has one to four bytes, by its code.
  have whole : Char.ofNat c.val.toNat = c := Char.ofNat_toNat c
  have valid : c.val.toNat < 0xD800 ∨ 0xDFFF < c.val.toNat ∧ c.val.toNat < 0x110000 := c.valid
  unfold String.utf8EncodeChar
  generalize c.val.toNat = code at whole valid ⊢
  subst whole
  -- The bytes behind the first have six bits of the code each.
  have least (number : Nat) : (0x80 : UInt8).toNat ≤ number % 64 + 128 := Nat.le_add_left _ _
  have most (number : Nat) : number % 64 + 128 ≤ (0xBF : UInt8).toNat := by
    show number % 64 + 128 ≤ 191
    omega
  dsimp only
  split
  · rename_i one
    rw [List.singleton_append, decodeFrom_cons, nextByte, firstByte_one one]
    rfl
  split
  · have bits : (code / 64 % 32 + 192 - 0xC0) * 0x40 + (code % 64 + 128 - 0x80) = code := by omega
    rw [List.cons_append, decodeFrom_cons, nextByte, firstByte_two (by omega) (by omega),
      List.singleton_append, decodeFrom_last (least _) (most _), bits]
    rfl
  split
  · -- No overlong form begins with the first of the lead bytes, and no half of a pair with another.
    have low : (if code / 4096 % 16 + 224 = 0xE0 then (0xA0 : UInt8) else 0x80).toNat ≤
        code / 64 % 64 + 128 := by
      split
      · show 160 ≤ code / 64 % 64 + 128
        omega
      · exact least _
    have high : code / 64 % 64 + 128 ≤
        (if code / 4096 % 16 + 224 = 0xED then (0x9F : UInt8) else 0xBF).toNat := by
      split
      · show code / 64 % 64 + 128 ≤ 159
        omega
      · exact most _
    have bits : ((code / 4096 % 16 + 224 - 0xE0) * 0x40 + (code / 64 % 64 + 128 - 0x80)) * 0x40 +
        (code % 64 + 128 - 0x80) = code := by omega
    rw [List.cons_append, decodeFrom_cons, nextByte, firstByte_three (by omega) (by omega),
      List.cons_append, decodeFrom_middle low high, List.singleton_append,
      decodeFrom_last (least _) (most _), bits]
    rfl
  · -- The last of the lead bytes begins no code beyond the last.
    have low : (if code / 262144 % 8 + 240 = 0xF0 then (0x90 : UInt8) else 0x80).toNat ≤
        code / 4096 % 64 + 128 := by
      split
      · show 144 ≤ code / 4096 % 64 + 128
        omega
      · exact least _
    have high : code / 4096 % 64 + 128 ≤
        (if code / 262144 % 8 + 240 = 0xF4 then (0x8F : UInt8) else 0xBF).toNat := by
      split
      · show code / 4096 % 64 + 128 ≤ 143
        omega
      · exact most _
    have bits : (((code / 262144 % 8 + 240 - 0xF0) * 0x40 + (code / 4096 % 64 + 128 - 0x80)) *
        0x40 + (code / 64 % 64 + 128 - 0x80)) * 0x40 + (code % 64 + 128 - 0x80) = code := by omega
    rw [List.cons_append, decodeFrom_cons, nextByte, firstByte_four (by omega) (by omega),
      List.cons_append, decodeFrom_middle low high, List.cons_append,
      decodeFrom_middle (least _) (most _), List.singleton_append,
      decodeFrom_last (least _) (most _), bits]
    rfl

/-- The bytes of a text, read as text, are the text. -/
theorem decode_encode (text : String) : decode (encode text) = text := by
  -- Each character is completed before the next begins.
  have characters (chars : List Char) :
      decodeFrom none (chars.flatMap String.utf8EncodeChar) = chars := by
    induction chars with
    | nil => rfl
    | cons c rest ih => rw [List.flatMap_cons, decodeFrom_utf8EncodeChar, ih]
  rw [encode_eq, decode, characters, String.ofList_toList]

end DoubleLang.Text
