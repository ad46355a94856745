import DoubleLang.PoolName
import DoubleLang.Proofs.Text.Number
import DoubleLang.Proofs.Token.Fit

/-! A pool name tells the function and the number it was made from, and no constant can have it. -/

namespace DoubleLang.PoolName

/-- The characters of a name that is put together from its parts. -/
private theorem toList_parts (function number : String) :
    (mark ++ function ++ "_" ++ number).toList =
      mark.toList ++ (function.toList ++ '_' :: number.toList) := by
  simp

/-- A pool name is its mark, the function, an underscore and the digits of the number. -/
private theorem toList_entry (function : String) (number : Nat) :
    (entry function number).toList =
      mark.toList ++ (function.toList ++ '_' :: Nat.toDigits 10 number) := by
  have digits : (toString number).toList = Nat.toDigits 10 number := Nat.toList_repr
  rw [entry, toList_parts, digits]

/-- A pool name by a number has the text of the number in the place of digits. -/
private theorem toList_ofNumber (function : String) (number : Nat) :
    (ofNumber function number).toList =
      mark.toList ++ (function.toList ++ '_' :: Number.naturalText number) := by
  rw [ofNumber, toList_parts, Number.toList_text]

/-- A number of literals is held by a double, and its text has the same digits. -/
theorem ofNumber_of_le (function : String) {number : Nat} (safe : number ≤ 2 ^ 53) :
    ofNumber function number = entry function number := by
  rw [← String.toList_inj, toList_ofNumber, toList_entry, Number.naturalText_of_le safe]

/-- Seen from the end, a back of one kind goes on up to the underscore in front of it. -/
private theorem back_from_end (front : List Char) {back : List Char} {kind : Char → Bool}
    (stop : kind '_' = false) (alike : ∀ c ∈ back, kind c = true) :
    (front ++ '_' :: back).reverse.takeWhile kind = back.reverse ∧
      (front ++ '_' :: back).reverse.dropWhile kind = '_' :: front.reverse := by
  -- From the end the back comes first, and the underscore stops the search.
  have split : (front ++ '_' :: back).reverse = back.reverse ++ '_' :: front.reverse := by simp
  rw [split]
  refine Piece.takeWhile_of_boundary (by simpa using alike) ?_
  rintro ⟨c, rest, starts, more⟩
  rw [← (List.cons.inj starts).1, stop] at more
  cases more

/-- What stands behind the last underscore is told from what stands before it. -/
private theorem append_underscore_inj {first second back other : List Char} (last : '_' ∉ back)
    (otherLast : '_' ∉ other) (same : first ++ '_' :: back = second ++ '_' :: other) :
    first = second ∧ back = other := by
  -- Neither back holds an underscore, so both are what the search from the end takes.
  have apart {text : List Char} (without : '_' ∉ text) : ∀ c ∈ text, (c != '_') = true := by
    intro c member
    rw [bne_iff_ne]
    rintro rfl
    exact without member
  have equal := (back_from_end first (by decide) (apart last)).1
  rw [same, (back_from_end second (by decide) (apart otherLast)).1] at equal
  have backs : back = other := (List.reverse_injective equal).symm
  subst backs
  exact ⟨List.append_cancel_right same, rfl⟩

/-- A number is written in one digit or more. -/
private theorem isDigits_toDigits (number : Nat) : Piece.IsDigits (Nat.toDigits 10 number) :=
  ⟨Nat.toDigits_ne_nil, fun _ => Number.isDigit_of_mem_toDigits⟩

/-- Digits hold no underscore. -/
private theorem no_underscore_in_digits {digits : List Char}
    (numeral : ∀ c ∈ digits, c.isDigit = true) : '_' ∉ digits := fun member =>
  absurd (numeral '_' member) (by decide)

/-- Pool names of different functions or different numbers differ. -/
theorem entry_inj {function other : String} {number index : Nat}
    (same : entry function number = entry other index) : function = other ∧ number = index := by
  -- The mark is the same for all, and the digits behind the last underscore tell the number.
  have texts := congrArg String.toList same
  rw [toList_entry, toList_entry] at texts
  obtain ⟨functions, digits⟩ := append_underscore_inj
    (no_underscore_in_digits (isDigits_toDigits number).2)
    (no_underscore_in_digits (isDigits_toDigits index).2) (List.append_cancel_left texts)
  exact ⟨String.toList_injective functions, Number.toDigits_inj digits⟩

/-- Pool names by numbers tell the function, and what a double keeps of the number. -/
theorem ofNumber_inj {function other : String} {number index : Nat}
    (same : ofNumber function number = ofNumber other index) :
    function = other ∧ Number.kept? number = Number.kept? index := by
  -- The mark is taken off, and then the text is cut at its last underscore.
  have texts := congrArg String.toList same
  rw [toList_ofNumber, toList_ofNumber] at texts
  obtain ⟨functions, numbers⟩ := append_underscore_inj (Number.no_underscore_in_naturalText number)
    (Number.no_underscore_in_naturalText index) (List.append_cancel_left texts)
  exact ⟨String.toList_injective functions, Number.naturalText_inj numbers⟩

/-- A text has the shape exactly if it can be split into an identifier, an underscore and digits. -/
theorem hasShape_iff (text : List Char) : hasShape text = true ↔
    ∃ function digits, text = function ++ '_' :: digits ∧
      Piece.isIdentifierText function = true ∧ Piece.IsDigits digits := by
  -- The text is looked at from its end: digits, an underscore, and all the rest.
  constructor
  · intro shaped
    have parts := List.takeWhile_append_dropWhile (p := Char.isDigit) (l := text.reverse)
    simp only [hasShape] at shaped
    split at shaped
    · rename_i function dropped
      simp only [Bool.and_eq_true, Bool.not_eq_true', List.isEmpty_eq_false_iff] at shaped
      rw [dropped] at parts
      refine ⟨function.reverse, (text.reverse.takeWhile Char.isDigit).reverse, ?_, shaped.2, ?_, ?_⟩
      · have forward := congrArg List.reverse parts
        rw [List.reverse_reverse] at forward
        exact forward.symm.trans (by simp)
      · simpa using shaped.1
      · exact fun c member => List.mem_takeWhile_imp (List.mem_reverse.mp member)
    · cases shaped
  · intro split
    -- No digit is an underscore, so however the text is split, its digits are those at its end.
    obtain ⟨function, digits, rfl, named, filled, numeral⟩ := split
    obtain ⟨taken, dropped⟩ := back_from_end function (by decide) numeral
    simp only [hasShape, taken, dropped]
    simp [named, filled]

/-- A name is reserved exactly if it can be split so behind the mark. -/
private theorem isReserved_iff (name : String) : isReserved name = true ↔
    ∃ function digits : String, name = mark ++ function ++ "_" ++ digits ∧
      Piece.isIdentifierText function.toList = true ∧ Piece.IsDigits digits.toList := by
  -- Behind the mark the name has the shape.
  simp only [isReserved, Bool.and_eq_true, hasShape_iff, List.isPrefixOf_iff_prefix]
  constructor
  · intro reserved
    obtain ⟨⟨text, whole⟩, function, digits, split, named, numeral⟩ := reserved
    rw [← whole, List.drop_left] at split
    refine ⟨String.ofList function, String.ofList digits, ?_, by simpa using named,
      by simpa using numeral⟩
    rw [← String.toList_inj, ← whole, split]
    simp
  · intro split
    obtain ⟨function, digits, rfl, named, numeral⟩ := split
    rw [toList_parts, List.drop_left]
    exact ⟨List.prefix_append _ _, function.toList, digits.toList, rfl, named, numeral⟩

/-- The pool names of a function with an identifier for its name are reserved. -/
theorem isReserved_entry {function : String} (named : Piece.isIdentifierText function.toList = true)
    (number : Nat) : isReserved (entry function number) = true := by
  refine (isReserved_iff _).mpr ⟨function, number.repr, rfl, named, ?_⟩
  simpa using isDigits_toDigits number

/-- A pool name by a number is reserved exactly if what a double keeps of the number has at most
twenty-one digits: from there on its text has a power of ten. -/
theorem isReserved_ofNumber_iff {function : String} {number : Nat}
    (named : Piece.isIdentifierText function.toList = true) :
    isReserved (ofNumber function number) = true ↔ Number.nearest number < 10 ^ 21 := by
  -- The number is written in digits exactly if it is not too long.
  rw [← Number.isDigits_naturalText_iff, isReserved_iff]
  constructor
  · -- However the name is split, what stands behind the last underscore is the number.
    intro reserved
    obtain ⟨other, digits, same, -, numeral⟩ := reserved
    have texts := congrArg String.toList same
    rw [toList_ofNumber, toList_parts] at texts
    obtain ⟨-, backs⟩ := append_underscore_inj (Number.no_underscore_in_naturalText number)
      (no_underscore_in_digits numeral.2) (List.append_cancel_left texts)
    rw [backs]
    exact numeral.2
  · intro numeral
    refine ⟨function, Number.text number, rfl, named, ?_⟩
    rw [Number.toList_text]
    exact ⟨Number.naturalText_ne_nil number, numeral⟩

/-- Pool names tell their function, and their number as far as a double keeps it. A number up to the
fifty-third power of two is kept as it is, and stands in its plain digits. Exactly the texts of
their shape are reserved: behind the mark an identifier, an underscore and digits, in one way of
splitting at least. So a pool name of a function with an identifier for its name is reserved exactly
if what a double keeps of its number is below the twenty-first power of ten. -/
theorem pool_names_unambiguous_and_reserved :
    (∀ (function other : String) (number index : Nat),
      ofNumber function number = ofNumber other index →
        function = other ∧ Number.kept? number = Number.kept? index) ∧
    (∀ (function : String) (number : Nat), number ≤ 2 ^ 53 →
      Number.kept? number = some number ∧
        ofNumber function number = "_c_const_" ++ function ++ "_" ++ toString number) ∧
    (∀ name : String, isReserved name = true ↔
      ∃ function digits : String, name = "_c_const_" ++ function ++ "_" ++ digits ∧
        Piece.isIdentifierText function.toList = true ∧ Piece.IsDigits digits.toList) ∧
    ∀ (function : String) (number : Nat), Piece.isIdentifierText function.toList = true →
      (isReserved (ofNumber function number) = true ↔ Number.nearest number < 10 ^ 21) :=
  ⟨fun _ _ _ _ => ofNumber_inj, fun function _ safe => ⟨Number.kept?_of_le safe,
    ofNumber_of_le function safe⟩, isReserved_iff, fun _ _ => isReserved_ofNumber_iff⟩

/-- Underscores and digits in the name of a function do not confuse: literal zero of `f_1` and
literal ten of `f` have different names. Without an identifier nothing is reserved. -/
theorem pool_names_of_digits_told_apart :
    ofNumber "f_1" 0 ≠ ofNumber "f" 10 ∧ isReserved (ofNumber "f_1" 0) = true ∧
      isReserved "_c_const_f_1_0" = true ∧ isReserved "_c_const__1" = false := by
  -- Small numbers are kept as they are, and so they differ.
  obtain ⟨apart, plain, shaped, reserved⟩ := pool_names_unambiguous_and_reserved
  have zero := (plain "f_1" 0 (by decide)).1
  have ten := (plain "f" 10 (by decide)).1
  refine ⟨fun same => ?_, (reserved "f_1" 0 (by decide)).mpr (by decide), ?_, by decide⟩
  · have numbers := (apart "f_1" "f" 0 10 same).2
    rw [zero, ten] at numbers
    cases numbers
  · exact (shaped _).mpr ⟨"f_1", "0", rfl, by decide, by decide, by simp⟩

/-- The twenty-first power of ten is a number that a double holds, but its text has a letter and a
sign, so the pool name of an identifier by it is not reserved. -/
theorem pool_name_by_power_of_ten_unreserved :
    Piece.isIdentifierText "f".toList = true ∧ Number.kept? (10 ^ 21) = some (10 ^ 21) ∧
      ofNumber "f" (10 ^ 21 : Nat) = "_c_const_f_1e+21" ∧
        isReserved (ofNumber "f" (10 ^ 21 : Nat)) = false := by
  -- The name is computed, and then looked at.
  have name : ofNumber "f" (10 ^ 21 : Nat) = "_c_const_f_1e+21" := by decide +kernel
  refine ⟨by decide, by decide +kernel, name, ?_⟩
  rw [name]
  decide

end DoubleLang.PoolName
