import DoubleLang.Proofs.Text.Order
import DoubleLang.Proofs.Token.Munch
import DoubleLang.Proofs.Token.ScanInto

/-!
The place of a lexical error.

No piece in front of a fault was told by the characters from the fault on, so the text up to there
is scanned on its own. What stands at the fault is a comment that is never closed, or a unit with
which nothing starts.
-/

namespace DoubleLang

namespace Piece

/-- A unit with which nothing starts: it is the code of no blank, letter, underscore, digit, sign
or mark. -/
def StartsNothing (unit : UInt16) : Prop :=
  ∀ c : Char, c.toNat = unit.toNat →
    Text.isBlank c = false ∧ c.isAlpha = false ∧ c ≠ '_' ∧ c.isDigit = false ∧
      c ∉ ['+', '-', '*', '/'] ∧ c ∉ ['(', ')', '\x7b', '\x7d', ',', ';', '=']

/-- Where no close is found there is none. -/
private theorem not_infix_of_throughClose? {text : List Char} (none : throughClose? text = none) :
    ¬ ['*', '/'] <:+: text := by
  -- A close in front would have been found, and behind the first character there is none either.
  fun_induction throughClose? text with
  | case1 rest => cases none
  | case2 c rest passes ih =>
    rw [close_infix_cons]
    intro close
    rcases close with ⟨star, slash⟩ | later
    · obtain ⟨more, starts⟩ := List.head?_eq_some_iff.mp slash
      exact passes more star starts
    · exact ih (Option.map_eq_none_iff.mp none) later
  | case3 => simp

/-- The first unit of a character starts nothing if the character itself does not. -/
private theorem startsNothing_leadUnit {c : Char} (solid : Text.isBlank c = false)
    (letter : startsIdentifier c = false) (digit : c.isDigit = false)
    (operator : isOperator c = false) (mark : isPunctuation c = false) :
    StartsNothing (Text.leadUnit c) := by
  -- It is to be shown of all characters that have the unit as their code.
  intro d same
  have apart := Text.toNat_apart c
  have proper := Text.toNat_apart d
  by_cases basic : c.toNat < 0x10000
  · -- A character of the basic plane is its own unit.
    have equal : d = c := by
      apply Char.toNat_inj.mp
      rw [same, Text.leadUnit, if_pos basic]
      simp only [Nat.toUInt16_eq, UInt16.toNat_ofNat']
      omega
    subst equal
    simp only [startsIdentifier, Bool.or_eq_false_iff, beq_eq_false_iff_ne] at letter
    refine ⟨solid, letter.1, letter.2, digit, ?_, ?_⟩
    · simpa [isOperator] using operator
    · simpa [isPunctuation] using mark
  · -- Half of a pair is the code of no character.
    rw [Text.leadUnit, if_neg basic] at same
    simp only [Nat.toUInt16_eq, UInt16.toNat_ofNat'] at same
    omega

/-- A fault is a comment that is never closed, or a character whose first unit starts nothing. -/
private theorem front_eq_error {afterOperand : Bool} {c : Char} {rest : List Char} {fault : Fault}
    (found : front afterOperand c rest = .error fault) :
    (∃ body, c = '/' ∧ rest = '*' :: body ∧ ¬ ['*', '/'] <:+: body ∧ fault = .unclosedComment) ∨
      StartsNothing (Text.leadUnit c) ∧ fault = .unexpected (Text.leadUnit c) := by
  -- The cases are those of the scan: blanks, both comments and lexemes.
  unfold front at found
  split at found
  · cases found
  · rename_i solid
    split at found
    · cases found
    · split at found
      · cases found
      · rename_i unclosed
        cases found
        exact .inl ⟨_, rfl, rfl, not_infix_of_throughClose? unclosed, rfl⟩
    · -- No lexeme starts with the character, so it is in none of their classes.
      unfold lexeme? at found
      split at found
      · cases found
      · rename_i numberless
        have digit := (number?_eq_none_iff.mp numberless).1
        split_ifs at found with letter operator mark
        cases found
        exact .inr ⟨startsNothing_leadUnit (by simpa using solid) (by simpa using letter) digit
          (by simpa using operator) (by simpa using mark), rfl⟩

end Piece

/-- The pieces of a cut fit one after another on their own, and the fault stands behind them. -/
private theorem Cut.fits_before_fault (afterOperand : Bool) (text : List Char) :
    Piece.FitInTurn afterOperand (ofTextFrom 0 afterOperand text).pieces ∧
      ∀ fault, (ofTextFrom 0 afterOperand text).fault = some fault →
        ∃ before c rest, text = (ofTextFrom 0 afterOperand text).covered ++ c :: rest ∧
          Piece.front before c rest = .error fault := by
  -- The text is cut piece by piece, up to where no piece is found.
  match text with
  | [] => exact ⟨trivial, by simp [ofTextFrom]⟩
  | c :: rest =>
    rw [ofTextFrom_cons]
    cases found : Piece.front afterOperand c rest with
    | error fault =>
      refine ⟨trivial, fun other same => ?_⟩
      cases same
      exact ⟨afterOperand, c, rest, rfl, found⟩
    | ok piece =>
      obtain ⟨tail, later, starts, split⟩ := Piece.front_append found
      have remains : (c :: rest).drop piece.text.length = later := by simp [starts, split]
      have whole : c :: rest = piece.text ++ later := by simp [starts, split]
      -- What follows the piece is shorter, and its pieces fit already.
      have shorter : later.length < (c :: rest).length := by
        simp only [split, List.length_cons, List.length_append]
        omega
      obtain ⟨fit, faulty⟩ := fits_before_fault (piece.leavesOperand afterOperand) later
      obtain ⟨more, rebuilt, -⟩ := covered_append (piece.leavesOperand afterOperand) later
      simp only [remains, push]
      refine ⟨⟨?_, fit⟩, fun fault same => ?_⟩
      · -- The piece was found in front of more text than its followers have.
        have here := Piece.fits_of_front found whole
        rw [rebuilt] at here
        exact here.of_append
      · obtain ⟨before, d, others, parts, error⟩ := faulty fault same
        refine ⟨before, d, others, ?_, error⟩
        simp only [covered, List.flatMap_cons, List.append_assoc]
        rw [whole]
        exact congrArg (piece.text ++ ·) parts
termination_by text.length

/-- Right behind the front of a text stands the first unit of what follows. -/
private theorem Text.units_getElem?_width (front : List Char) (c : Char) (rest : List Char) :
    (units (front ++ c :: rest))[width front]? = some (leadUnit c) := by
  -- Every character has a first unit, and the front takes as many units as it is wide.
  have first : ∃ more, charUnits c = leadUnit c :: more := by
    unfold charUnits leadUnit
    split <;> exact ⟨_, rfl⟩
  obtain ⟨more, lead⟩ := first
  rw [units_append, units_cons, lead, ← length_units, List.getElem?_append_right (Nat.le_refl _)]
  simp

namespace Text

/-- The code of half a pair has four digits in base sixteen. -/
private theorem toDigits_half {code : Nat} (least : 0xD800 ≤ code) (most : code ≤ 0xDFFF) :
    Nat.toDigits 16 code = [Nat.digitChar (code / 4096), Nat.digitChar (code / 256 % 16),
      Nat.digitChar (code / 16 % 16), Nat.digitChar (code % 16)] := by
  -- Three divisions leave a digit, and the fourth one would leave nothing.
  rw [Nat.toDigits_eq_if (by decide), if_neg (by omega), Nat.toDigits_eq_if (by decide),
    if_neg (by omega), Nat.toDigits_eq_if (by decide), if_neg (by omega),
    Nat.toDigits_eq_if (by decide), if_pos (by omega)]
  simp [Nat.div_div_eq_div_mul]

/-- Half of a pair is shown by the four digits of its code in braces. -/
private theorem unitText_half {unit : UInt16} (half : 0xD800 ≤ unit ∧ unit ≤ 0xDFFF) :
    (unitText unit).toList = ['\x7b', 'U', '+'] ++
      [unit.toNat / 4096, unit.toNat / 256 % 16, unit.toNat / 16 % 16, unit.toNat % 16].map
        (fun digit => (Nat.digitChar digit).toUpper) ++ ['\x7d'] := by
  -- The code is in the range that has four digits.
  have digits := toDigits_half (UInt16.le_iff_toNat_le.mp half.1) (UInt16.le_iff_toNat_le.mp half.2)
  rw [unitText, if_pos half, digits]
  simp

/-- A unit that is no half of a pair is the code of the character that it is shown as. -/
private theorem unitText_whole {unit : UInt16} (whole : ¬ (0xD800 ≤ unit ∧ unit ≤ 0xDFFF)) :
    ∃ c : Char, c.toNat = unit.toNat ∧ unitText unit = String.singleton c := by
  -- Outside the range of halves every code is that of a character.
  have bound := unit.toNat_lt
  simp only [UInt16.le_iff_toNat_le, UInt16.reduceToNat] at whole
  have valid : unit.toNat.isValidChar := by
    unfold Nat.isValidChar
    omega
  refine ⟨Char.ofNat unit.toNat, ?_, ?_⟩
  · rw [Char.ofNat, dif_pos valid]
    rfl
  · rw [unitText, if_neg]
    simpa only [UInt16.le_iff_toNat_le, UInt16.reduceToNat] using whole

/-- A unit that is the code of a character is shown as that character. -/
theorem unitText_of_char {unit : UInt16} {c : Char} (code : c.toNat = unit.toNat) :
    unitText unit = String.singleton c := by
  -- No character has the code of half a pair.
  have apart := toNat_apart c
  have whole : ¬ (0xD800 ≤ unit ∧ unit ≤ 0xDFFF) := by
    simp only [UInt16.le_iff_toNat_le, UInt16.reduceToNat]
    omega
  obtain ⟨d, same, shown⟩ := unitText_whole whole
  rw [shown, Char.toNat_inj.mp (same.trans code.symm)]

/-- What is shown of a unit tells the unit. -/
theorem unitText_inj {unit other : UInt16} (same : unitText unit = unitText other) :
    unit = other := by
  -- Halves are shown by braces and digits, all other units by one character.
  have texts := congrArg String.toList same
  rw [← UInt16.toNat_inj]
  by_cases half : 0xD800 ≤ unit ∧ unit ≤ 0xDFFF
  · rw [unitText_half half] at texts
    by_cases otherHalf : 0xD800 ≤ other ∧ other ≤ 0xDFFF
    · -- Four digits tell the code.
      rw [unitText_half otherHalf] at texts
      have digit : ∀ first < 16, ∀ second < 16,
          (Nat.digitChar first).toUpper = (Nat.digitChar second).toUpper → first = second := by
        decide
      simp only [List.map_cons, List.map_nil, List.cons_append, List.nil_append, List.cons.injEq,
        and_true, true_and] at texts
      obtain ⟨first, second, third, last⟩ := texts
      have bound := unit.toNat_lt
      have otherBound := other.toNat_lt
      have leading := digit _ (by omega) _ (by omega) first
      have next := digit _ (by omega) _ (by omega) second
      have later := digit _ (by omega) _ (by omega) third
      have final := digit _ (by omega) _ (by omega) last
      omega
    · -- The code in braces is longer than a character.
      obtain ⟨c, -, shown⟩ := unitText_whole otherHalf
      rw [shown] at texts
      simp at texts
  · obtain ⟨c, code, shown⟩ := unitText_whole half
    by_cases otherHalf : 0xD800 ≤ other ∧ other ≤ 0xDFFF
    · rw [shown, unitText_half otherHalf] at texts
      simp at texts
    · obtain ⟨d, otherCode, otherShown⟩ := unitText_whole otherHalf
      rw [shown, otherShown] at texts
      simp only [String.toList_singleton, List.cons.injEq, and_true] at texts
      rw [← code, ← otherCode, texts]

end Text

/-- A message names a unit: it shows this unit and no other, by the character that has it for its
code if there is one. -/
structure Text.NamesUnit (message : String) (unit : UInt16) : Prop where
  shown : ∀ other, message = "Unexpected character \"" ++ unitText other ++ "\"." ↔ other = unit
  plain : ∀ c : Char, c.toNat = unit.toNat →
    message = "Unexpected character \"" ++ String.singleton c ++ "\"."

/-- The message about a unit names it. -/
theorem Text.namesUnit_unexpected (unit : UInt16) :
    NamesUnit (Piece.Fault.unexpected unit).message unit := by
  -- The unit stands between fixed words, which can be taken off.
  have wording : (Piece.Fault.unexpected unit).message =
      "Unexpected character \"" ++ unitText unit ++ "\"." := rfl
  rw [wording]
  constructor
  · intro other
    rw [String.append_left_inj, String.append_right_inj]
    constructor
    · intro same
      exact (unitText_inj same).symm
    · intro same
      rw [same]
  · intro c code
    rw [unitText_of_char code]

/-- A report names the fault of a text at an offset: the text before it is scanned on its own, and
there stands a comment that is never closed or a unit that starts nothing. -/
structure Diagnostic.NamesFault (report : Diagnostic) (file text : String) (offset : Nat) :
    Prop where
  severity : report.severity = .error
  code : report.code = .lexical
  inFile : report.file = file
  placed : report.place = some ((LineTable.ofText text.toList).positionAt offset)
  faulty : ∃ front rest, text.toList = front ++ rest ∧ Text.width front = offset ∧
    (∃ tokens, ∀ log, Token.scanInto file (String.ofList front) log = (some tokens, log)) ∧
    ((∃ body, rest = '/' :: '*' :: body ∧ ¬ ['*', '/'] <:+: body ∧
        report.message = "Unterminated block comment.") ∨
      ∃ unit, (Text.units text.toList)[offset]? = some unit ∧ Piece.StartsNothing unit ∧
        Text.NamesUnit report.message unit)

/-- A cut that stops short has a fault to name. -/
private theorem Token.namesFault_of_scan {file text : String} {error : ScanError}
    (failed : Token.scan file text = .error error) :
    ∃ offset, (error.diagnostic file).NamesFault file text offset := by
  -- Up to the fault the text is cut into pieces that fit.
  obtain ⟨fit, behind⟩ := Cut.fits_before_fault false text.toList
  unfold Token.scan at failed
  cases fault : (Cut.ofText text.toList).fault with
  | none => simp [fault] at failed
  | some reason =>
    simp only [fault, Except.error.injEq] at failed
    subst failed
    obtain ⟨before, c, rest, split, stuck⟩ := behind reason fault
    change text.toList = (Cut.ofText text.toList).covered ++ c :: rest at split
    refine ⟨Text.width (Cut.ofText text.toList).covered, rfl, rfl, rfl, ?_, _, c :: rest, split,
      rfl, ?_, ?_⟩
    · -- Walking up to the fault ends where the table of lines has its offset.
      have place := LineTable.positionAt_width (Cut.ofText text.toList).covered (c :: rest)
      rw [← split] at place
      rw [place]
      rfl
    · -- The pieces in front of the fault are the cut of the text up to there.
      have cut := (Piece.ofTextFrom_eq_iff false (Cut.ofText text.toList).covered _).mpr ⟨rfl, fit⟩
      rw [Token.scanInto_eq, Token.scan, String.toList_ofList, Cut.ofText, cut]
      exact ⟨_, fun _ => rfl⟩
    · rcases Piece.front_eq_error stuck with ⟨body, rfl, rfl, unclosed, rfl⟩ | ⟨nothing, rfl⟩
      · exact .inl ⟨body, rfl, unclosed, rfl⟩
      · refine .inr ⟨Text.leadUnit c, ?_, nothing, Text.namesUnit_unexpected _⟩
        have unit := Text.units_getElem?_width (Cut.ofText text.toList).covered c rest
        rwa [← split] at unit

/-- A scan that makes no tokens adds one report, and that names the fault it meets. -/
theorem Token.scan_failure_names_fault {file text : String} {log left : List Diagnostic}
    (failed : Token.scanInto file text log = (none, left)) :
    ∃ report offset, left = log ++ [report] ∧ report.NamesFault file text offset := by
  -- The pass with a log reports what the scan stops at.
  rw [Token.scanInto_eq] at failed
  cases scanned : Token.scan file text with
  | ok tokens =>
    rw [scanned] at failed
    cases failed
  | error error =>
    rw [scanned] at failed
    cases failed
    obtain ⟨offset, names⟩ := Token.namesFault_of_scan scanned
    exact ⟨_, offset, rfl, names⟩

/-- A point behind a number that has a fraction, half of a pair behind a minus, and a comment whose
first star cannot close it. -/
theorem Token.scan_failures_name_faults :
    let point : Diagnostic :=
      ⟨.lexical, .error, "Unexpected character \".\".", "dots", some ⟨2, 4, 6⟩⟩
    let half : Diagnostic :=
      ⟨.lexical, .error, "Unexpected character \"\x7bU+D83D\x7d\".", "dots", some ⟨1, 3, 2⟩⟩
    let comment : Diagnostic :=
      ⟨.lexical, .error, "Unterminated block comment.", "dots", some ⟨1, 4, 3⟩⟩
    Token.scanInto "dots" "k=\n1.5.2" [] = (none, [point]) ∧
      Token.scanInto "dots" "1-😀" [point] = (none, [point, half]) ∧
      Token.scanInto "dots" "1/ /*/" [] = (none, [comment]) ∧
      (∃ offset, point.NamesFault "dots" "k=\n1.5.2" offset) ∧
      (∃ offset, half.NamesFault "dots" "1-😀" offset) ∧
      ∃ offset, comment.NamesFault "dots" "1/ /*/" offset := by
  -- Each of the three texts is scanned by itself.
  intro point half comment
  have dotted : Token.scanInto "dots" "k=\n1.5.2" [] = (none, [point]) := by
    rw [Token.scanInto_eq]
    decide +kernel
  have split : Token.scanInto "dots" "1-😀" [point] = (none, [point, half]) := by
    rw [Token.scanInto_eq]
    decide +kernel
  have open_ : Token.scanInto "dots" "1/ /*/" [] = (none, [comment]) := by
    rw [Token.scanInto_eq]
    decide +kernel
  refine ⟨dotted, split, open_, ?_, ?_, ?_⟩
  · obtain ⟨report, offset, same, names⟩ := Token.scan_failure_names_fault dotted
    cases same
    exact ⟨offset, names⟩
  · obtain ⟨report, offset, same, names⟩ := Token.scan_failure_names_fault split
    cases same
    exact ⟨offset, names⟩
  · obtain ⟨report, offset, same, names⟩ := Token.scan_failure_names_fault open_
    cases same
    exact ⟨offset, names⟩

end DoubleLang
