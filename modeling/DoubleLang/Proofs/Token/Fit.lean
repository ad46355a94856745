import DoubleLang.Token.Piece
import Mathlib.Data.List.Infix
import Mathlib.Data.List.TakeWhile

/-! The piece in front of a text is the only one whose shape and neighbours let it stand there. -/

namespace DoubleLang

namespace Piece

/-- A text starts with a character of a class. -/
def StartsWith (belongs : Char → Bool) (text : List Char) : Prop :=
  ∃ c rest, text = c :: rest ∧ belongs c = true

/-- One digit or more. -/
def IsDigits (text : List Char) : Prop :=
  text ≠ [] ∧ ∀ c ∈ text, c.isDigit = true

/-- Digits, and perhaps a point with more digits. -/
def IsUnsigned (text : List Char) : Prop :=
  ∃ whole, IsDigits whole ∧
    (text = whole ∨ ∃ fraction, IsDigits fraction ∧ text = whole ++ '.' :: fraction)

/-- An unsigned number, perhaps behind a minus. -/
def IsNumber (text : List Char) : Prop :=
  IsUnsigned text ∨ ∃ rest, IsUnsigned rest ∧ text = '-' :: rest

/-- No text behind a number makes it longer, by a digit or by a first fraction. -/
def EndsNumber (text rest : List Char) : Prop :=
  ¬ StartsWith Char.isDigit rest ∧
    ('.' ∉ text → ∀ more, rest = '.' :: more → ¬ StartsWith Char.isDigit more)

/-- A piece has one of the shapes, and neither the lexeme before nor the text behind forbids it. -/
def Fits (afterOperand : Bool) (rest : List Char) : Piece → Prop
  | .blank c => Text.isBlank c = true
  -- Only the end of the text lets a line comment do without its line feed.
  | .lineComment text =>
    ∃ body, '\n' ∉ body ∧
      (text = '/' :: '/' :: (body ++ ['\n']) ∨ text = '/' :: '/' :: body ∧ rest = [])
  | .blockComment text =>
    ∃ body, text = '/' :: '*' :: (body ++ ['*', '/']) ∧ ¬ ['*', '/'] <:+: body
  | .lexeme .number text =>
    IsNumber text ∧ EndsNumber text rest ∧ (text.head? = some '-' → afterOperand = false)
  | .lexeme .identifier text =>
    isIdentifierText text = true ∧ String.ofList text ∉ keywords ∧
      ¬ StartsWith continuesIdentifier rest
  | .lexeme .keyword text =>
    String.ofList text ∈ keywords ∧ ¬ StartsWith continuesIdentifier rest
  | .lexeme .operator text =>
    ∃ c, text = [c] ∧ c ∈ ['+', '-', '*', '/'] ∧
      (c = '/' → ¬ StartsWith (['/', '*'].contains ·) rest) ∧
      (c = '-' → StartsWith Char.isDigit rest → afterOperand = true)
  | .lexeme .punctuation text =>
    ∃ c, text = [c] ∧ c ∈ ['(', ')', '\x7b', '\x7d', ',', ';', '=']
  | .lexeme .finish _ => False

/-- A class goes on as far as its characters do. -/
theorem takeWhile_of_boundary {belongs : Char → Bool} {body rest : List Char}
    (inside : ∀ c ∈ body, belongs c = true) (boundary : ¬ StartsWith belongs rest) :
    (body ++ rest).takeWhile belongs = body ∧ (body ++ rest).dropWhile belongs = rest := by
  rw [List.takeWhile_append_of_pos inside, List.dropWhile_append_of_pos inside]
  -- The first character behind the body, if there is one, is outside the class.
  cases rest with
  | nil => simp
  | cons c rest =>
    have outside : belongs c = false := by
      by_contra member
      exact boundary ⟨c, rest, rfl, by simpa using member⟩
    simp [outside]

/-- Behind all characters of a class there is none of it. -/
private theorem not_startsWith_dropWhile (belongs : Char → Bool) (text : List Char) :
    ¬ StartsWith belongs (text.dropWhile belongs) := by
  -- Dropping stops only at a character outside the class.
  rintro ⟨c, rest, starts, member⟩
  have outside := List.head?_dropWhile_not belongs text
  simp [starts, member] at outside

/-- A line without a line feed in it is taken whole, and so is its line feed. -/
private theorem throughFeed_of_not_mem {body : List Char} (feedless : '\n' ∉ body) :
    throughFeed body = body ∧ ∀ more, throughFeed (body ++ '\n' :: more) = body ++ ['\n'] := by
  -- No character of the line is the line feed that would end it earlier.
  induction body with
  | nil => simp [throughFeed]
  | cons c body ih =>
    simp only [List.mem_cons, not_or] at feedless
    obtain ⟨alone, fed⟩ := ih feedless.2
    simp [throughFeed, Ne.symm feedless.1, alone, fed]

/-- What is taken through the first line feed is a line, with its line feed unless the text ends. -/
private theorem throughFeed_cases (text : List Char) :
    ∃ body, '\n' ∉ body ∧
      (throughFeed text = body ++ ['\n'] ∨ throughFeed text = body ∧ text = body) := by
  -- A line feed ends the line, and without one the line is the whole text.
  induction text with
  | nil => exact ⟨[], by simp, .inr ⟨rfl, rfl⟩⟩
  | cons c rest ih =>
    by_cases feed : c = '\n'
    · exact ⟨[], by simp, .inl (by simp [throughFeed, feed])⟩
    · -- Any other character goes in front of the line that follows.
      obtain ⟨body, feedless, taken⟩ := ih
      refine ⟨c :: body, by simp [feedless, Ne.symm feed], ?_⟩
      rcases taken with taken | ⟨taken, rfl⟩
      · exact .inl (by simp [throughFeed, feed, taken])
      · exact .inr ⟨by simp [throughFeed, feed, taken], rfl⟩

/-- A star and a slash lie in a text only if they start it or lie behind its first character. -/
theorem close_infix_cons {c : Char} {body : List Char} :
    ['*', '/'] <:+: c :: body ↔ (c = '*' ∧ body.head? = some '/') ∨ ['*', '/'] <:+: body := by
  -- What lies in a text stands at its front or behind its first character.
  rw [List.infix_cons_iff]
  constructor
  · rintro (front | later)
    · obtain ⟨more, whole⟩ := front
      simp only [List.cons_append, List.cons.injEq] at whole
      exact .inl ⟨whole.1.symm, by simp [← whole.2]⟩
    · exact .inr later
  · rintro (⟨rfl, slash⟩ | later)
    · cases body with
      | nil => simp at slash
      | cons d body =>
        simp only [List.head?_cons, Option.some.injEq] at slash
        subst slash
        exact .inl ⟨body, rfl⟩
    · exact .inr later

/-- A body without star and slash is taken whole, through those that follow it. -/
private theorem throughClose?_of_not_infix {body : List Char} (more : List Char)
    (unclosed : ¬ ['*', '/'] <:+: body) :
    throughClose? (body ++ '*' :: '/' :: more) = some (body ++ ['*', '/']) := by
  -- Each character is passed, for no close starts at it.
  induction body with
  | nil => rfl
  | cons c body ih =>
    rw [close_infix_cons, not_or] at unclosed
    -- The first character cannot be the star of a close, not even of the one behind the body.
    have passes : ∀ rest, c = '*' → body ++ '*' :: '/' :: more = '/' :: rest → False := by
      intro rest star slash
      cases body with
      | nil => simp at slash
      | cons d body =>
        simp only [List.cons_append, List.cons.injEq] at slash
        exact unclosed.1 ⟨star, by simp [slash.1]⟩
    rw [List.cons_append, throughClose?.eq_2 _ _ passes, ih unclosed.2]
    rfl

/-- What is taken through the first star and slash has none before its end. -/
private theorem throughClose?_cases {text closed : List Char}
    (found : throughClose? text = some closed) :
    ∃ body, closed = body ++ ['*', '/'] ∧ ¬ ['*', '/'] <:+: body := by
  -- The cases are a close in front, a character that is passed, and the end.
  fun_induction throughClose? text generalizing closed with
  | case1 rest =>
    cases found
    exact ⟨[], rfl, by simp⟩
  | case2 c rest passes ih =>
    obtain ⟨inner, later, rfl⟩ := Option.map_eq_some_iff.mp found
    obtain ⟨body, rfl, unclosed⟩ := ih later
    refine ⟨c :: body, rfl, ?_⟩
    rw [close_infix_cons]
    rintro (⟨star, slash⟩ | inside)
    · -- A slash at the start of the body would have closed the comment one character earlier.
      obtain ⟨more, rest_eq⟩ := throughClose?_append later
      cases body with
      | nil => simp at slash
      | cons d body =>
        simp only [List.head?_cons, Option.some.injEq] at slash
        exact passes (body ++ ['*', '/'] ++ more) star (by simp [rest_eq, slash])
    · exact unclosed inside
  | case3 => cases found

/-- Digits start with a digit, whatever follows them. -/
theorem IsDigits.startsWith {text : List Char} (digits : IsDigits text) (rest : List Char) :
    StartsWith Char.isDigit (text ++ rest) := by
  -- There is a first digit, for digits are not empty.
  obtain ⟨filled, all⟩ := digits
  cases text with
  | nil => exact absurd rfl filled
  | cons c text => exact ⟨c, text ++ rest, rfl, all c (by simp)⟩

/-- No point stands among digits. -/
private theorem IsDigits.point_not_mem {text : List Char} (digits : IsDigits text) :
    '.' ∉ text := by
  -- A point is no digit.
  intro member
  have digit := digits.2 _ member
  simp at digit

/-- Unsigned numbers start with a digit. -/
theorem IsUnsigned.startsWith {text : List Char} (number : IsUnsigned text) (rest : List Char) :
    StartsWith Char.isDigit (text ++ rest) := by
  -- Both shapes start with whole digits.
  obtain ⟨whole, digits, rfl | ⟨fraction, -, rfl⟩⟩ := number
  · exact digits.startsWith rest
  · simpa using digits.startsWith ('.' :: fraction ++ rest)

/-- No number is read exactly where no digit starts. -/
private theorem unsigned?_eq_none_iff {text : List Char} :
    unsigned? text = none ↔ ¬ StartsWith Char.isDigit text := by
  -- Whether digits are taken is seen at the first character.
  cases text with
  | nil => simp [unsigned?, StartsWith]
  | cons c rest =>
    by_cases digit : c.isDigit = true
    · -- With a digit in front, every branch behind the first one gives a number.
      have starts : StartsWith Char.isDigit (c :: rest) := ⟨c, rest, rfl, digit⟩
      simp only [starts, not_true_eq_false, iff_false, unsigned?, List.takeWhile_cons, digit,
        if_true, List.isEmpty_cons, Bool.false_eq_true, if_false]
      split
      · split <;> simp
      · simp
    · simp [unsigned?, StartsWith, digit]

/-- An unsigned number is read whole where nothing behind it makes it longer. -/
private theorem unsigned?_of_isUnsigned {text rest : List Char} (number : IsUnsigned text)
    (ends : EndsNumber text rest) : unsigned? (text ++ rest) = some text := by
  -- What ends the number depends on whether it has a fraction.
  obtain ⟨whole, digits, rfl | ⟨fraction, decimals, rfl⟩⟩ := number
  · -- Behind whole digits a point is taken only with a digit behind it.
    obtain ⟨taken, dropped⟩ := takeWhile_of_boundary digits.2 ends.1
    simp only [unsigned?, taken, dropped, List.isEmpty_iff, digits.1, if_false]
    split
    · rename_i more
      have pointless := ends.2 digits.point_not_mem more rfl
      have empty : more.takeWhile Char.isDigit = [] :=
        (@takeWhile_of_boundary Char.isDigit [] more (by simp) pointless).1
      simp [empty]
    · rfl
  · -- Behind a fraction only a digit could be taken.
    have point : ¬ StartsWith Char.isDigit ('.' :: fraction ++ rest) := by
      rintro ⟨c, more, starts, digit⟩
      simp only [List.cons_append, List.cons.injEq] at starts
      simp [← starts.1] at digit
    obtain ⟨taken, dropped⟩ := takeWhile_of_boundary digits.2 point
    obtain ⟨decimalsTaken, -⟩ := takeWhile_of_boundary decimals.2 ends.1
    simp only [List.cons_append] at taken dropped
    simp [unsigned?, taken, dropped, digits.1, decimalsTaken, decimals.1]

/-- What is read as an unsigned number is one, and nothing behind it makes it longer. -/
private theorem isUnsigned_of_unsigned? {text rest : List Char}
    (found : unsigned? (text ++ rest) = some text) : IsUnsigned text ∧ EndsNumber text rest := by
  -- The number is the digits in front, with the fraction behind them if it is taken.
  have parts := List.takeWhile_append_dropWhile (p := Char.isDigit) (l := text ++ rest)
  have boundary := not_startsWith_dropWhile Char.isDigit (text ++ rest)
  have all : ∀ c ∈ (text ++ rest).takeWhile Char.isDigit, c.isDigit = true :=
    fun _ member => List.mem_takeWhile_imp member
  simp only [unsigned?] at found
  split at found
  · cases found
  · rename_i filled
    have digits : IsDigits ((text ++ rest).takeWhile Char.isDigit) := ⟨by simpa using filled, all⟩
    split at found
    · rename_i more point
      split at found
      · -- The point behind the digits has no digit behind it.
        rename_i empty
        simp only [Option.some.injEq] at found
        rw [found] at digits parts
        have behind : rest = '.' :: more := by
          rw [point] at parts
          exact (List.append_cancel_left parts).symm
        refine ⟨⟨text, digits, .inl rfl⟩, ?_, ?_⟩
        · rwa [point, ← behind] at boundary
        · rintro - other same
          rw [behind, List.cons.injEq] at same
          rintro ⟨c, later, starts, digit⟩
          rw [← same.2] at starts
          simp [starts, digit] at empty
      · -- The fraction is as long as its digits go.
        rename_i filledFraction
        simp only [Option.some.injEq] at found
        have decimals : IsDigits (more.takeWhile Char.isDigit) :=
          ⟨by simpa using filledFraction, fun _ member => List.mem_takeWhile_imp member⟩
        have behind : rest = more.dropWhile Char.isDigit := by
          have whole := parts
          rw [point, ← List.takeWhile_append_dropWhile (p := Char.isDigit) (l := more)] at whole
          rw [← List.cons_append, ← List.append_assoc, found] at whole
          exact (List.append_cancel_left whole).symm
        refine ⟨⟨_, digits, .inr ⟨_, decimals, found.symm⟩⟩, ?_, ?_⟩
        · rw [behind]
          exact not_startsWith_dropWhile _ _
        · intro pointless
          have point : '.' ∈ text := by
            rw [← found]
            simp
          exact absurd point pointless
    · -- No point stands behind the digits.
      rename_i pointless
      simp only [Option.some.injEq] at found
      rw [found] at digits parts
      have behind : (text ++ rest).dropWhile Char.isDigit = rest := List.append_cancel_left parts
      refine ⟨⟨text, digits, .inl rfl⟩, by rwa [behind] at boundary, ?_⟩
      rintro - more same
      exact absurd (behind.trans same) (pointless more)

/-- A sign alone makes no number, and neither does any other character but a digit. -/
theorem number?_eq_none_iff {afterOperand : Bool} {c : Char} {rest : List Char} :
    number? afterOperand (c :: rest) = none ↔
      c.isDigit = false ∧ (c = '-' → StartsWith Char.isDigit rest → afterOperand = true) := by
  -- A minus needs a digit behind it and no operand before it.
  by_cases minus : c = '-'
  · subst minus
    cases afterOperand <;> simp [number?, unsigned?_eq_none_iff]
  · have unsigned : number? afterOperand (c :: rest) = unsigned? (c :: rest) := by
      simp [number?, minus]
    rw [unsigned, unsigned?_eq_none_iff]
    simp [StartsWith, minus]

/-- A number is read whole where nothing behind it makes it longer and its sign is one. -/
theorem number?_of_isNumber {afterOperand : Bool} {text rest : List Char} (number : IsNumber text)
    (ends : EndsNumber text rest) (sign : text.head? = some '-' → afterOperand = false) :
    number? afterOperand (text ++ rest) = some text := by
  -- A sign is passed, and the rest is read as an unsigned number.
  rcases number with unsigned | ⟨digits, unsigned, rfl⟩
  · -- An unsigned number starts with a digit, which is no minus.
    obtain ⟨c, later, starts, digit⟩ := unsigned.startsWith rest
    have minus : c ≠ '-' := by
      rintro rfl
      simp at digit
    have same : number? afterOperand (text ++ rest) = unsigned? (text ++ rest) := by
      simp [starts, number?, minus]
    rw [same, unsigned?_of_isUnsigned unsigned ends]
  · have read : unsigned? (digits ++ rest) = some digits :=
      unsigned?_of_isUnsigned unsigned ⟨ends.1, fun pointless => ends.2 (by simp [pointless])⟩
    simp [number?, sign rfl, read]

/-- What is read as a number is one, with a sign only where an operand may start. -/
theorem isNumber_of_number? {afterOperand : Bool} {text rest : List Char}
    (found : number? afterOperand (text ++ rest) = some text) :
    IsNumber text ∧ EndsNumber text rest ∧ (text.head? = some '-' → afterOperand = false) := by
  -- The first character tells whether there is a sign.
  unfold number? at found
  split at found
  · rename_i later starts
    split at found
    · cases found
    · -- Behind the sign there is an unsigned number.
      rename_i operand
      obtain ⟨digits, read, rfl⟩ := Option.map_eq_some_iff.mp found
      simp only [List.cons_append, List.cons.injEq, true_and] at starts
      rw [← starts] at read
      obtain ⟨unsigned, closed, open_⟩ := isUnsigned_of_unsigned? read
      refine ⟨.inr ⟨digits, unsigned, rfl⟩, ⟨closed, ?_⟩, fun _ => by simpa using operand⟩
      intro pointless
      exact open_ fun point => pointless (by simp [point])
  · rename_i signless
    obtain ⟨unsigned, ends⟩ := isUnsigned_of_unsigned? found
    refine ⟨.inl unsigned, ends, ?_⟩
    intro minus
    obtain ⟨later, rfl⟩ := List.head?_eq_some_iff.mp minus
    exact absurd rfl (signless (later ++ rest))

/-- Digits have the codes of a short range. -/
private theorem isDigit_bounds {c : Char} (digit : c.isDigit = true) :
    48 ≤ c.toNat ∧ c.toNat ≤ 57 := by
  simpa [Char.isDigit, UInt32.le_iff_toNat_le] using digit

/-- A digit is neither blank nor a slash. -/
theorem isDigit_excludes {c : Char} (digit : c.isDigit = true) :
    Text.isBlank c = false ∧ c ≠ '/' := by
  -- Blanks and the slash have other codes.
  have bounds := isDigit_bounds digit
  constructor
  · simp [Text.isBlank, Text.blankRanges]
    omega
  · rintro rfl
    simp at bounds

/-- A character that starts an identifier is neither blank nor a digit, sign or slash. -/
theorem startsIdentifier_excludes {c : Char} (starts : startsIdentifier c = true) :
    Text.isBlank c = false ∧ c.isDigit = false ∧ c ≠ '-' ∧ c ≠ '/' := by
  -- Letters have the codes of two ranges, and the underscore stands between them.
  have letters : startsIdentifier c = (decide (c.val ≥ 'A'.val ∧ c.val ≤ 'Z'.val) ||
      (decide (c.val ≥ 'a'.val) && decide (c.val ≤ 'z'.val)) || c == '_') := rfl
  have bounds : 65 ≤ c.toNat ∧ c.toNat ≤ 90 ∨ 97 ≤ c.toNat ∧ c.toNat ≤ 122 ∨ c.toNat = 95 := by
    simp only [letters, Bool.or_eq_true, Bool.and_eq_true, decide_eq_true_eq, ge_iff_le,
      UInt32.le_iff_toNat_le, beq_iff_eq] at starts
    rcases starts with (upper | lower) | rfl
    · exact .inl upper
    · exact .inr (.inl lower)
    · exact .inr (.inr rfl)
  refine ⟨?_, ?_, ?_, ?_⟩
  · simp [Text.isBlank, Text.blankRanges]
    omega
  · by_contra digit
    have numeral := isDigit_bounds (by simpa using digit)
    omega
  · rintro rfl
    simp at bounds
  · rintro rfl
    simp at bounds

/-- A number starts with a digit or a minus, neither of which opens anything else. -/
theorem IsNumber.starts {text : List Char} (number : IsNumber text) :
    ∃ c tail, text = c :: tail ∧ Text.isBlank c = false ∧ c ≠ '/' := by
  -- An unsigned number starts with a digit, and any other with a minus.
  rcases number with unsigned | ⟨digits, -, rfl⟩
  · obtain ⟨c, tail, starts, digit⟩ := unsigned.startsWith []
    exact ⟨c, tail, by simpa using starts, isDigit_excludes digit⟩
  · exact ⟨'-', digits, rfl, by decide⟩

/-- A character that opens no comment starts a lexeme if it starts anything. -/
private theorem front_eq_lexeme? {afterOperand : Bool} {c : Char} {rest : List Char}
    (solid : Text.isBlank c = false)
    (plain : c = '/' → ¬ StartsWith (['/', '*'].contains ·) rest) :
    front afterOperand c rest = lexeme? afterOperand c rest := by
  -- Neither comment starts here.
  unfold front
  rw [if_neg (by simp [solid])]
  split
  · exact absurd ⟨_, _, rfl, by decide⟩ (plain rfl)
  · exact absurd ⟨_, _, rfl, by decide⟩ (plain rfl)
  · rfl

/-- Identifier characters up to a boundary are read as one word. -/
private theorem front_eq_word {afterOperand : Bool} {c : Char} {tail rest : List Char}
    (starts : startsIdentifier c = true) (inside : ∀ d ∈ tail, continuesIdentifier d = true)
    (boundary : ¬ StartsWith continuesIdentifier rest) :
    front afterOperand c (tail ++ rest) = .ok (word (c :: tail)) := by
  -- The first character starts no number, so a word is read as far as it goes.
  obtain ⟨solid, digit, minus, slash⟩ := startsIdentifier_excludes starts
  have numberless : number? afterOperand (c :: (tail ++ rest)) = none :=
    number?_eq_none_iff.mpr ⟨digit, fun sign => absurd sign minus⟩
  rw [front_eq_lexeme? solid fun same => absurd same slash]
  simp [lexeme?, numberless, starts, (takeWhile_of_boundary inside boundary).1]

/-- Keywords are made of the characters of identifiers. -/
theorem isIdentifierText_of_keyword {text : List Char} (known : String.ofList text ∈ keywords) :
    isIdentifierText text = true := by
  -- There are two keywords.
  have same : text = (String.ofList text).toList := by simp
  simp only [keywords, List.mem_cons, List.not_mem_nil, or_false] at known
  rcases known with known | known <;> rw [same, known] <;> decide

/-- A word is an identifier or a keyword, as the list of keywords says. -/
private theorem word_eq {kind : Token.Kind} {text : List Char}
    (named : kind = .identifier ∧ String.ofList text ∉ keywords ∨
      kind = .keyword ∧ String.ofList text ∈ keywords) : word text = .lexeme kind text := by
  -- The list of keywords decides.
  rcases named with ⟨rfl, unknown⟩ | ⟨rfl, known⟩
  · simp [word, unknown]
  · simp [word, known]

/-- A piece that fits is the one found in front of the text behind it. -/
theorem front_of_fits {afterOperand : Bool} {more : List Char} {piece : Piece}
    (fits : piece.Fits afterOperand more) :
    ∃ c tail, piece.text = c :: tail ∧ front afterOperand c (tail ++ more) = .ok piece := by
  -- A word is read the same way, whether it turns out a keyword or not.
  have words : ∀ kind text, isIdentifierText text = true →
      (kind = .identifier ∧ String.ofList text ∉ keywords ∨
        kind = .keyword ∧ String.ofList text ∈ keywords) →
      ¬ StartsWith continuesIdentifier more →
      ∃ c tail, text = c :: tail ∧
        front afterOperand c (tail ++ more) = .ok (.lexeme kind text) := by
    intro kind text shape named boundary
    cases text with
    | nil => simp [isIdentifierText] at shape
    | cons c tail =>
      simp only [isIdentifierText, Bool.and_eq_true, List.all_eq_true] at shape
      exact ⟨c, tail, rfl, by rw [front_eq_word shape.1 shape.2 boundary, word_eq named]⟩
  match piece, fits with
  | .blank c, spaced => exact ⟨c, [], rfl, by simp [front, show Text.isBlank c = true from spaced]⟩
  | .lineComment _, ⟨body, feedless, taken⟩ =>
    have slash : Text.isBlank '/' = false := by decide
    have line := throughFeed_of_not_mem (show '\n' ∉ '/' :: '/' :: body by simp [feedless])
    -- A comment at the end of the text needs no line feed.
    rcases taken with rfl | ⟨rfl, rfl⟩
    · have read := line.2 more
      simp only [List.cons_append] at read
      exact ⟨'/', '/' :: (body ++ ['\n']), rfl, by simp [front, slash, read]⟩
    · exact ⟨'/', '/' :: body, rfl, by simp [front, slash, line.1]⟩
  | .blockComment _, ⟨body, same, unclosed⟩ =>
    subst same
    have slash : Text.isBlank '/' = false := by decide
    have read := throughClose?_of_not_infix more unclosed
    exact ⟨'/', '*' :: (body ++ ['*', '/']), rfl, by simp [front, slash, read]⟩
  | .lexeme .number text, ⟨number, ends, sign⟩ =>
    -- Numbers are tried before every other lexeme, so nothing else has to be ruled out but
    -- comments.
    obtain ⟨c, tail, rfl, solid, slash⟩ := number.starts
    have read := number?_of_isNumber number ends sign
    refine ⟨c, tail, rfl, ?_⟩
    rw [front_eq_lexeme? solid fun same => absurd same slash]
    simp only [List.cons_append] at read
    simp [lexeme?, read]
  | .lexeme .identifier text, ⟨shape, unknown, boundary⟩ =>
    exact words .identifier text shape (.inl ⟨rfl, unknown⟩) boundary
  | .lexeme .keyword text, ⟨known, boundary⟩ =>
    exact words .keyword text (isIdentifierText_of_keyword known) (.inr ⟨rfl, known⟩) boundary
  | .lexeme .operator _, ⟨c, rfl, sign, slash, minus⟩ =>
    have class_ : Text.isBlank c = false ∧ c.isDigit = false ∧ startsIdentifier c = false := by
      simp only [List.mem_cons, List.not_mem_nil, or_false] at sign
      rcases sign with rfl | rfl | rfl | rfl <;> decide
    -- A minus could still start a number, and the place it stands in forbids that.
    have numberless : number? afterOperand (c :: more) = none :=
      number?_eq_none_iff.mpr ⟨class_.2.1, minus⟩
    refine ⟨c, [], rfl, ?_⟩
    rw [List.nil_append, front_eq_lexeme? class_.1 slash]
    have operator : isOperator c = true := by simpa [isOperator] using sign
    simp [lexeme?, numberless, class_.2.2, operator]
  | .lexeme .punctuation _, ⟨c, rfl, mark⟩ =>
    have class_ : Text.isBlank c = false ∧ c.isDigit = false ∧ startsIdentifier c = false ∧
        isOperator c = false ∧ c ≠ '-' ∧ c ≠ '/' := by
      simp only [List.mem_cons, List.not_mem_nil, or_false] at mark
      rcases mark with rfl | rfl | rfl | rfl | rfl | rfl | rfl <;> decide
    obtain ⟨solid, digit, letter, operator, minus, slash⟩ := class_
    have numberless : number? afterOperand (c :: more) = none :=
      number?_eq_none_iff.mpr ⟨digit, fun same => absurd same minus⟩
    refine ⟨c, [], rfl, ?_⟩
    rw [List.nil_append, front_eq_lexeme? solid fun same => absurd same slash]
    have punctuation : isPunctuation c = true := by simpa [isPunctuation] using mark
    simp [lexeme?, numberless, letter, operator, punctuation]

/-- The lexeme found in front of a text fits there, if no comment starts there. -/
private theorem fits_of_lexeme? {afterOperand : Bool} {c : Char} {rest more : List Char}
    {piece : Piece}
    (plain : c = '/' → ¬ StartsWith (['/', '*'].contains ·) rest)
    (found : lexeme? afterOperand c rest = .ok piece) (whole : c :: rest = piece.text ++ more) :
    piece.Fits afterOperand more := by
  -- The cases are those of the scan: numbers, words, operators and marks.
  unfold lexeme? at found
  split at found
  · rename_i number numbered
    cases found
    rw [whole] at numbered
    exact isNumber_of_number? numbered
  · rename_i numberless
    split at found
    · -- A word goes on as far as identifier characters do.
      rename_i starts
      cases found
      simp only [word, text, List.cons_append, List.cons.injEq, true_and] at whole
      have behind : rest.dropWhile continuesIdentifier = more := by
        have parts := List.takeWhile_append_dropWhile (p := continuesIdentifier) (l := rest)
        exact List.append_cancel_left (parts.trans whole)
      have boundary : ¬ StartsWith continuesIdentifier more :=
        behind ▸ not_startsWith_dropWhile continuesIdentifier rest
      have shape : isIdentifierText (c :: rest.takeWhile continuesIdentifier) = true := by
        simp [isIdentifierText, starts]
      by_cases known : String.ofList (c :: rest.takeWhile continuesIdentifier) ∈ keywords
      · rw [word_eq (.inr ⟨rfl, known⟩)]
        exact ⟨known, boundary⟩
      · rw [word_eq (.inl ⟨rfl, known⟩)]
        exact ⟨shape, known, boundary⟩
    · split at found
      · -- A minus that is an operator was not read as the sign of a number.
        rename_i operator
        cases found
        simp only [text, List.cons_append, List.nil_append, List.cons.injEq, true_and] at whole
        subst whole
        obtain ⟨-, minus⟩ := number?_eq_none_iff.mp numberless
        exact ⟨c, rfl, by simpa [isOperator] using operator, plain, minus⟩
      · split at found
        · rename_i mark
          cases found
          exact ⟨c, rfl, by simpa [isPunctuation] using mark⟩
        · cases found

/-- The piece found in front of a text fits there. -/
theorem fits_of_front {afterOperand : Bool} {c : Char} {rest more : List Char} {piece : Piece}
    (found : front afterOperand c rest = .ok piece) (whole : c :: rest = piece.text ++ more) :
    piece.Fits afterOperand more := by
  -- The cases are those of the scan: blanks, both comments and lexemes.
  unfold front at found
  split at found
  · rename_i spaced
    cases found
    exact spaced
  · split at found
    · -- A line comment stops at a line feed, or else nothing is left.
      rename_i later _
      cases found
      obtain ⟨body, feedless, taken⟩ := throughFeed_cases later
      refine ⟨body, feedless, ?_⟩
      simp only [text, throughFeed, Char.reduceEq, if_false] at whole ⊢
      rcases taken with taken | ⟨taken, same⟩
      · exact .inl (by rw [taken])
      · refine .inr ⟨by rw [taken], ?_⟩
        rw [taken, ← same] at whole
        simpa using whole
    · split at found
      · rename_i closed closes
        cases found
        obtain ⟨body, rfl, unclosed⟩ := throughClose?_cases closes
        exact ⟨body, rfl, unclosed⟩
      · cases found
    · -- A slash in front would open a comment with another slash or a star behind it.
      rename_i lineless blockless
      refine fits_of_lexeme? ?_ found whole
      rintro rfl ⟨d, later, rfl, opens⟩
      simp only [List.contains_cons, List.contains_nil, Bool.or_false, Bool.or_eq_true,
        beq_iff_eq] at opens
      rcases opens with rfl | rfl
      · exact lineless later rfl rfl
      · exact blockless later rfl rfl

/-- A text that goes on starts as its front does. -/
theorem StartsWith.append {belongs : Char → Bool} {text : List Char}
    (starts : StartsWith belongs text) (more : List Char) : StartsWith belongs (text ++ more) := by
  obtain ⟨c, rest, rfl, member⟩ := starts
  exact ⟨c, rest ++ more, rfl, member⟩

/-- A piece that fits still does when the text behind it is cut off somewhere. -/
theorem Fits.of_append {afterOperand : Bool} {rest more : List Char} {piece : Piece}
    (fits : piece.Fits afterOperand (rest ++ more)) : piece.Fits afterOperand rest := by
  -- All that is asked of the text behind forbids how it starts, and less text starts with less.
  have shorter {belongs : Char → Bool} (free : ¬ StartsWith belongs (rest ++ more)) :
      ¬ StartsWith belongs rest := fun starts => free (starts.append more)
  match piece, fits with
  | .blank _, spaced => exact spaced
  | .lineComment _, ⟨body, feedless, taken⟩ =>
    -- A comment that ends the longer text has nothing behind it in the shorter one either.
    refine ⟨body, feedless, taken.imp_right fun last => ⟨last.1, ?_⟩⟩
    exact (List.append_eq_nil_iff.mp last.2).1
  | .blockComment _, closed => exact closed
  | .lexeme .number _, ⟨number, ⟨ends, open_⟩, sign⟩ =>
    refine ⟨number, ⟨shorter ends, fun pointless later same => ?_⟩, sign⟩
    intro starts
    exact open_ pointless (later ++ more) (by simp [same]) (starts.append more)
  | .lexeme .identifier _, ⟨shape, unknown, boundary⟩ => exact ⟨shape, unknown, shorter boundary⟩
  | .lexeme .keyword _, ⟨known, boundary⟩ => exact ⟨known, shorter boundary⟩
  | .lexeme .operator _, ⟨c, same, sign, slash, minus⟩ =>
    exact ⟨c, same, sign, fun this => shorter (slash this),
      fun this starts => minus this (starts.append more)⟩
  | .lexeme .punctuation _, mark => exact mark

end Piece

end DoubleLang
