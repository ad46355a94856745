import DoubleLang.Proofs.Program.Normal
import DoubleLang.Text.Hex

/-!
Texts taken apart again.

Names, numbers and registers are made of characters that never divide a text. So whatever is
written between such words, a mark, a space or the end of a line, tells where a word ends.
-/

namespace DoubleLang.Text

/-- What follows a mark at the front of a text. -/
def behind? (mark : String) (text : List Char) : Option (List Char) :=
  text.dropPrefix? mark.toList

/-- A character of a name, a number or a register. -/
def isSolid (c : Char) : Bool :=
  Piece.continuesIdentifier c || ['%', '$', '-', '.'].contains c

/-- A text without anything that divides texts. -/
def Solid (text : List Char) : Prop :=
  ∀ c ∈ text, isSolid c = true

instance (text : List Char) : Decidable (Solid text) :=
  decidable_of_iff (text.all isSolid = true) List.all_eq_true

/-- The word in front of a text and what follows the mark behind it. -/
def cut? (mark : String) (text : List Char) : Option (String × List Char) :=
  (behind? mark (text.dropWhile isSolid)).map (String.ofList (text.takeWhile isSolid), ·)

/-- The member of a list that is written as a text. -/
def written? {α : Type} (items : List α) (write : α → String) (text : List Char) : Option α :=
  items.find? fun item => (write item).toList == text

/-- The value of a digit, in any base up to sixteen. -/
def digitValue (c : Char) : Nat :=
  if c.isDigit then c.toNat - '0'.toNat else c.toNat - 'a'.toNat + 10

/-- The value of digits in a base. -/
def digitsValue (base : Nat) (digits : List Char) : Nat :=
  digits.foldl (fun value c => base * value + digitValue c) 0

/-- The integer that is written with a sign, the marker `0x` and digits. -/
def signedHex? : List Char → Option Int
  | '-' :: '0' :: 'x' :: digits => some (-(digitsValue 16 digits : Int))
  | '0' :: 'x' :: digits => some (digitsValue 16 digits)
  | _ => none

/-- A mark in front of a text is taken off. -/
theorem behind?_append (mark : String) (rest : List Char) :
    behind? mark (mark.toList ++ rest) = some rest :=
  List.dropPrefix?_append_of_beq rest (beq_self_eq_true mark.toList)

/-- A solid text is solid in both parts. -/
private theorem solid_append {first second : List Char} :
    Solid (first ++ second) ↔ Solid first ∧ Solid second :=
  List.forall_mem_append

/-- A text is solid if its first character is and the rest is. -/
theorem solid_cons {c : Char} {rest : List Char} :
    Solid (c :: rest) ↔ isSolid c = true ∧ Solid rest :=
  List.forall_mem_cons

/-- A solid text has no character that is not solid. -/
theorem Solid.not_mem {text : List Char} (solid : Solid text) {c : Char}
    (divides : isSolid c = false := by decide) : c ∉ text := by
  -- Every character of the text is solid.
  intro member
  rw [solid c member] at divides
  cases divides

/-- Characters of identifiers are solid. -/
private theorem isSolid_of_continuesIdentifier {c : Char}
    (continues : Piece.continuesIdentifier c = true) :
    isSolid c = true := by
  simp [isSolid, continues]

/-- Identifiers are solid. -/
theorem solid_of_isIdentifierText {text : List Char}
    (named : Piece.isIdentifierText text = true) : Solid text := by
  -- No identifier is empty.
  cases text with
  | nil => cases named
  | cons c rest =>
    simp only [Piece.isIdentifierText, Bool.and_eq_true, List.all_eq_true] at named
    obtain ⟨starts, continues⟩ := named
    refine solid_cons.mpr ⟨isSolid_of_continuesIdentifier ?_, ?_⟩
    · -- A character that starts an identifier may continue one.
      simp only [Piece.startsIdentifier, Bool.or_eq_true] at starts
      simp only [Piece.continuesIdentifier, Char.isAlphanum, Bool.or_eq_true]
      exact starts.imp_left .inl
    · intro other member
      exact isSolid_of_continuesIdentifier (continues other member)

/-- Digits are solid. -/
private theorem solid_of_isDigits {text : List Char} (digits : Piece.IsDigits text) :
    Solid text := by
  -- A digit may continue an identifier.
  intro c member
  apply isSolid_of_continuesIdentifier
  simp [Piece.continuesIdentifier, Char.isAlphanum, digits.2 c member]

/-- Numbers are solid. -/
theorem solid_of_isNumeral {text : String} (numeral : IsNumeral text) : Solid text.toList := by
  -- A point and a sign are solid, as digits are.
  have unsigned {text : List Char} (number : Piece.IsUnsigned text) : Solid text := by
    obtain ⟨whole, digits, rfl | ⟨fraction, decimals, rfl⟩⟩ := number
    · exact solid_of_isDigits digits
    · rw [solid_append, solid_cons]
      exact ⟨solid_of_isDigits digits, by decide, solid_of_isDigits decimals⟩
  rcases numeral with number | ⟨rest, number, written⟩
  · exact unsigned number
  · rw [written, solid_cons]
    exact ⟨by decide, unsigned number⟩

/-- A solid word is cut off in front of a mark that does not start with a solid character. -/
theorem cut?_append {mark : String} {word : String} (solid : Solid word.toList) (rest : List Char)
    (divides : mark.toList.head?.all isSolid = false := by decide) :
    cut? mark (word.toList ++ (mark.toList ++ rest)) = some (word, rest) := by
  -- The mark is not empty, and its first character ends the word.
  have boundary : ¬ Piece.StartsWith isSolid (mark.toList ++ rest) := by
    rintro ⟨c, more, starts, belongs⟩
    cases written : mark.toList with
    | nil => simp [written] at divides
    | cons first others =>
      rw [written, List.cons_append, List.cons.injEq] at starts
      simp [written, starts.1, belongs] at divides
  obtain ⟨taken, dropped⟩ := Piece.takeWhile_of_boundary solid boundary
  rw [cut?, taken, dropped, behind?_append]
  simp

/-- A text without a character is made of others. -/
private theorem others_of_not_mem {c : Char} {body : List Char} (absent : c ∉ body) :
    ∀ other ∈ body, decide (other ≠ c) = true := by
  intro other member
  rw [decide_eq_true_eq]
  exact ne_of_mem_of_not_mem member absent

/-- A text is cut where a character first stands. -/
theorem cut_at {c : Char} {body : List Char} (absent : c ∉ body) (rest : List Char) :
    (body ++ c :: rest).takeWhile (· ≠ c) = body ∧
      (body ++ c :: rest).dropWhile (· ≠ c) = c :: rest := by
  -- The character itself is the first that stops the search.
  refine Piece.takeWhile_of_boundary (others_of_not_mem absent) ?_
  rintro ⟨other, more, starts, differs⟩
  cases starts
  simp at differs

/-- A text is not cut where no character stands. -/
theorem cut_none {c : Char} {body : List Char} (absent : c ∉ body) :
    body.takeWhile (· ≠ c) = body ∧ body.dropWhile (· ≠ c) = [] :=
  ⟨List.takeWhile_eq_self_iff.mpr (others_of_not_mem absent),
    List.dropWhile_eq_nil_iff.mpr (others_of_not_mem absent)⟩

/-- Spaces in front of a text without spaces are left out. -/
theorem dropWhile_spaces {body : List Char} (absent : ' ' ∉ body) (count : Nat) :
    (List.replicate count ' ' ++ body).dropWhile (· = ' ') = body := by
  -- The search goes through all spaces in front, and then meets a character that is none.
  rw [List.dropWhile_append_of_pos (by simp), List.dropWhile_eq_self_iff]
  intro filled
  simp only [decide_eq_true_eq]
  intro space
  exact absent (space ▸ List.getElem_mem filled)

/-- Parts between marks hold no other character than the marks and their own ones. -/
theorem not_mem_intercalate {c mark : Char} {parts : List (List Char)} (other : c ≠ mark)
    (absent : ∀ part ∈ parts, c ∉ part) : c ∉ [mark].intercalate parts := by
  -- A character of the whole is one of the first part, of the mark or of the rest.
  induction parts with
  | nil => simp
  | cons part rest ih =>
    cases rest with
    | nil => simpa using absent
    | cons next later => simp_all [List.intercalate_cons_cons]

/-- Items that are read each as what they mean are read as what they mean together. -/
theorem mapM_written {α β γ : Type} {write : α → β} {read? : β → Option γ} {meaning : α → γ}
    {items : List α} (reads : ∀ item ∈ items, read? (write item) = some (meaning item)) :
    (items.map write).mapM read? = some (items.map meaning) := by
  -- One item that is read lets the reading of the others go on.
  induction items with
  | nil => rfl
  | cons item rest ih =>
    have later := ih fun other member => reads other (List.mem_cons_of_mem _ member)
    simp [reads item List.mem_cons_self, later]

/-- Digits in a base have the value they were written for. -/
theorem digitsValue_toDigits {base : Nat} (least : 1 < base) (most : base ≤ 16) (value : Nat) :
    digitsValue base (Nat.toDigits base value) = value := by
  have each : ∀ digit < 16, digitValue (Nat.digitChar digit) = digit := by decide
  -- All digits but the last are those of the value without it.
  induction value using Nat.strongRecOn with
  | ind value ih =>
    rw [Nat.toDigits_eq_if least]
    split
    · rename_i small
      simp [digitsValue, each value (by omega)]
    · rename_i large
      -- The value of the front digits is raised by the base, and the last one is added.
      have front := ih (value / base) (Nat.div_lt_self (by omega) least)
      have last := each (value % base) (Nat.lt_of_lt_of_le (Nat.mod_lt value (by omega)) most)
      simp only [digitsValue] at front
      simp only [digitsValue, List.foldl_append, front, List.foldl_cons, List.foldl_nil, last]
      exact Nat.div_add_mod value base

/-- Digits in a base up to sixteen are solid. -/
theorem solid_toDigits {base : Nat} (least : 1 < base) (most : base ≤ 16) (value : Nat) :
    Solid (Nat.toDigits base value) := by
  -- Each digit is one of sixteen, and these are looked at.
  have each : ∀ digit < 16, isSolid (Nat.digitChar digit) = true := by decide
  induction value using Nat.strongRecOn with
  | ind value ih =>
    rw [Nat.toDigits_eq_if least]
    split
    · rename_i small
      simpa [Solid] using each value (by omega)
    · rename_i large
      have last := each (value % base) (Nat.lt_of_lt_of_le (Nat.mod_lt value (by omega)) most)
      refine solid_append.mpr ⟨ih (value / base) (Nat.div_lt_self (by omega) least), ?_⟩
      simpa [Solid] using last

/-- An integer is read back from base sixteen. -/
theorem signedHex?_signedHex (value : Int) : signedHex? (signedHex value).toList = some value := by
  -- The digits are those of the absolute value, and the sign stands in front.
  have digits : digitsValue 16 (Nat.toDigits 16 value.natAbs) = value.natAbs :=
    digitsValue_toDigits (by decide) (by decide) value.natAbs
  have minus : "-0x".toList = ['-', '0', 'x'] := rfl
  have plus : "0x".toList = ['0', 'x'] := rfl
  unfold signedHex
  rw [String.toList_append, String.toList_ofList]
  split
  · rw [minus]
    simp only [List.cons_append, List.nil_append, signedHex?, digits, Option.some.injEq]
    omega
  · rw [plus]
    simp only [List.cons_append, List.nil_append, signedHex?, digits, Option.some.injEq]
    omega

/-- Signed numbers in base sixteen are solid. -/
theorem solid_signedHex (value : Int) : Solid (signedHex value).toList := by
  -- Sign and mark are fixed, and digits are solid.
  unfold signedHex
  rw [String.toList_append, solid_append]
  refine ⟨?_, by simpa using solid_toDigits (by decide) (by decide) value.natAbs⟩
  split <;> decide

/-- An identifier is no number in base sixteen, for that starts with a digit or a sign. -/
theorem signedHex?_of_isIdentifierText {text : List Char}
    (named : Piece.isIdentifierText text = true) : signedHex? text = none := by
  -- Reading asks for the first character, and no identifier has it.
  unfold signedHex?
  split
  · simp [Piece.isIdentifierText, Piece.startsIdentifier] at named
  · simp [Piece.isIdentifierText, Piece.startsIdentifier] at named
  · rfl

/-- A number in base sixteen is not empty. -/
theorem signedHex_ne_empty (value : Int) : signedHex value ≠ "" := by
  unfold signedHex
  split <;> simp

end DoubleLang.Text
