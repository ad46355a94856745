import DoubleLang.Text.Number
import Mathlib.Algebra.Group.Nat.Defs
import Mathlib.Data.List.Basic
import Mathlib.Data.Nat.Log

/-!
What the text of a whole number tells.

Rounding keeps the order against numbers that a double can hold, and leaves these alone. The digits
of a text stand for a number that rounds to the one written, so the text tells that number.
-/

namespace DoubleLang.Number

/-- A unit is a power of two. -/
private theorem unit_eq (value : Nat) : unit value = 2 ^ (value.log2 - 52) :=
  rfl

/-- A unit is not zero. -/
private theorem unit_pos (value : Nat) : 0 < unit value :=
  Nat.two_pow_pos _

/-- A number is rounded to a multiple of its unit: down, or up if it is none itself. -/
private theorem nearest_cases (value : Nat) :
    nearest value = value / unit value * unit value ∨
      0 < value % unit value ∧ nearest value = (value / unit value + 1) * unit value := by
  -- A number that is rounded up has something left over.
  have positive := unit_pos value
  simp only [nearest]
  by_cases down : 2 * (value % unit value) < unit value ∨
      2 * (value % unit value) = unit value ∧ value / unit value % 2 = 0
  · exact .inl (if_pos down)
  · refine .inr ⟨?_, if_neg down⟩
    omega

/-- A multiple of the unit that is not above a number is not above its lower neighbour. -/
private theorem le_lower {bound value : Nat} (whole : unit value ∣ bound) (above : bound ≤ value) :
    bound ≤ value / unit value * unit value := by
  -- Multiples of the unit are compared by how many units they have.
  obtain ⟨count, rfl⟩ := whole
  rw [Nat.mul_comm (value / unit value)]
  refine Nat.mul_le_mul_left _ ?_
  rw [Nat.le_div_iff_mul_le (unit_pos value), Nat.mul_comm]
  exact above

/-- A multiple of the unit that is above a number is not below its upper neighbour. -/
private theorem upper_le {bound value : Nat} (whole : unit value ∣ bound) (below : value < bound) :
    (value / unit value + 1) * unit value ≤ bound := by
  -- Multiples of the unit are compared by how many units they have.
  obtain ⟨count, rfl⟩ := whole
  rw [Nat.mul_comm (unit value)]
  refine Nat.mul_le_mul_right _ ?_
  rw [Nat.add_one_le_iff, Nat.div_lt_iff_lt_mul (unit_pos value), Nat.mul_comm]
  exact below

/-- A power of two that is not below the leading one of a number is a multiple of its unit. -/
private theorem unit_dvd_two_pow {value power : Nat} (leading : value.log2 ≤ power) :
    unit value ∣ 2 ^ power :=
  Nat.pow_dvd_pow 2 (by omega)

/-- A greater number has no smaller leading power of two. -/
private theorem log2_le_log2 {small large : Nat} (order : small ≤ large) :
    small.log2 ≤ large.log2 := by
  rw [Nat.log2_eq_log_two, Nat.log2_eq_log_two]
  exact Nat.log_mono_right order

/-- Rounding takes no number below one that a double can hold. -/
private theorem le_nearest {bound value : Nat} (whole : unit bound ∣ bound)
    (above : bound ≤ value) :
    bound ≤ nearest value := by
  -- It is enough to look at the lower neighbour.
  have lower : value / unit value * unit value ≤ nearest value := by
    rcases nearest_cases value with down | ⟨-, up⟩
    · omega
    · rw [up, Nat.add_mul]
      omega
  refine Nat.le_trans ?_ lower
  by_cases same : bound.log2 = value.log2
  · have equal : unit bound = unit value := by rw [unit_eq, unit_eq, same]
    exact le_lower (equal ▸ whole) above
  · -- The leading power of two lies between them.
    by_cases zero : bound = 0
    · omega
    have order : bound.log2 ≤ value.log2 := log2_le_log2 above
    have below : bound < 2 ^ value.log2 := (Nat.log2_lt zero).mp (by omega)
    have power : 2 ^ value.log2 ≤ value := Nat.log2_self_le (by omega)
    exact Nat.le_trans (Nat.le_of_lt below) (le_lower (unit_dvd_two_pow (Nat.le_refl _)) power)

/-- Rounding takes no number above one that a double can hold. -/
private theorem nearest_le {bound value : Nat} (whole : unit bound ∣ bound)
    (below : value ≤ bound) :
    nearest value ≤ bound := by
  -- A number that is rounded down is all the lower.
  rcases nearest_cases value with down | ⟨excess, up⟩
  · rw [down]
    exact Nat.le_trans (Nat.div_mul_le_self value _) below
  · rw [up]
    -- With as many digits both are multiples of one unit; otherwise the leading power of two of the
    -- bound lies between them.
    by_cases same : value.log2 = bound.log2
    · have equal : unit bound = unit value := by rw [unit_eq, unit_eq, same]
      rw [equal] at whole
      refine upper_le whole (Nat.lt_of_le_of_ne below ?_)
      rintro rfl
      rw [Nat.mod_eq_zero_of_dvd whole] at excess
      omega
    · have order : value.log2 ≤ bound.log2 := log2_le_log2 below
      have filled : bound ≠ 0 := by
        rintro rfl
        exact same (by rw [Nat.le_zero.mp below])
      have power : 2 ^ bound.log2 ≤ bound := Nat.log2_self_le filled
      have above : value < 2 ^ bound.log2 :=
        Nat.lt_of_lt_of_le Nat.lt_log2_self (Nat.pow_le_pow_right (by decide) (by omega))
      exact Nat.le_trans (upper_le (unit_dvd_two_pow order) above) power

/-- What a number is rounded to can be held by a double. -/
private theorem whole_nearest (value : Nat) : unit (nearest value) ∣ nearest value := by
  -- Fifty-three digits are kept, or one is carried beyond them.
  obtain ⟨count, few, rounded⟩ : ∃ count ≤ 2 ^ 53, nearest value = count * unit value := by
    have kept : value / unit value < 2 ^ 53 := by
      rw [Nat.div_lt_iff_lt_mul (unit_pos value), unit_eq, ← Nat.pow_add]
      exact Nat.lt_of_lt_of_le Nat.lt_log2_self (Nat.pow_le_pow_right (by decide) (by omega))
    rcases nearest_cases value with down | ⟨-, up⟩
    · exact ⟨_, Nat.le_of_lt kept, down⟩
    · exact ⟨_, kept, up⟩
  by_cases carried : count = 2 ^ 53
  · have power : nearest value = 2 ^ (53 + (value.log2 - 52)) := by
      rw [rounded, carried, unit_eq, ← Nat.pow_add]
    rw [power]
    exact unit_dvd_two_pow (Nat.le_of_eq Nat.log2_two_pow)
  · by_cases zero : nearest value = 0
    · rw [zero]
      exact Nat.dvd_zero _
    refine Nat.dvd_trans (Nat.pow_dvd_pow 2 ?_) (rounded ▸ Nat.dvd_mul_left (unit value) count)
    have bound : nearest value < 2 ^ (53 + (value.log2 - 52)) := by
      rw [rounded, Nat.pow_add]
      exact Nat.mul_lt_mul_of_pos_right (by omega) (unit_pos value)
    have leading := (Nat.log2_lt zero).mpr bound
    omega

/-- Rounding leaves alone what a double can hold. -/
private theorem nearest_of_whole {value : Nat} (whole : unit value ∣ value) :
    nearest value = value :=
  Nat.le_antisymm (nearest_le whole (Nat.le_refl value)) (le_nearest whole (Nat.le_refl value))

/-- Rounding leaves alone what has been rounded. -/
private theorem nearest_nearest (value : Nat) : nearest (nearest value) = nearest value :=
  nearest_of_whole (whole_nearest value)

/-- Whole numbers up to the fifty-third power of two are held as they are. -/
private theorem nearest_of_le {value : Nat} (safe : value ≤ 2 ^ 53) : nearest value = value := by
  -- The power itself has one digit more, and is even.
  by_cases last : value = 2 ^ 53
  · exact nearest_of_whole (last ▸ by decide)
  · -- With no more digits than are kept, the unit is one.
    refine nearest_of_whole ?_
    by_cases zero : value = 0
    · rw [zero]
      exact Nat.dvd_zero _
    have leading := (Nat.log2_lt zero).mpr (Nat.lt_of_le_of_ne safe last)
    rw [unit_eq, show value.log2 - 52 = 0 by omega]
    exact Nat.one_dvd value

/-- What stands for a number on a grid is rounded to it. -/
private theorem nearest_of_onGrid? {grid value count : Nat}
    (found : onGrid? grid value = some count) :
    nearest (count * grid) = value := by
  -- Both neighbours on the grid are tried by rounding them.
  simp only [onGrid?] at found
  split at found
  · rename_i fits
    cases found
    exact fits.1
  · split at found
    · rename_i fits
      cases found
      exact fits
    · cases found

/-- The number that the digits of a text stand for. -/
def written (value : Nat) : Nat :=
  (digits value).1 * 10 ^ (digits value).2

/-- What is written is rounded to the number. -/
private theorem nearest_written {value : Nat} (kept : nearest value = value) :
    nearest (written value) = value := by
  -- Either some grid has a number that is rounded to this one, or all digits are written.
  simp only [written, digits]
  cases found : (List.range ((Nat.toDigits 10 value).length + 1)).reverse.findSome?
      fun zeros => (onGrid? (10 ^ zeros) value).map (·, zeros) with
  | none => simpa using kept
  | some pair =>
    obtain ⟨zeros, -, stands⟩ := List.exists_of_findSome?_eq_some found
    obtain ⟨count, fits, rfl⟩ := Option.map_eq_some_iff.mp stands
    exact nearest_of_onGrid? fits

/-- What is written has more than twenty-one digits exactly where the number has. -/
theorem written_lt_iff {value : Nat} (kept : nearest value = value) :
    written value < 10 ^ 21 ↔ value < 10 ^ 21 := by
  -- The power of ten itself can be held, and is written as it is.
  have whole : unit (10 ^ 21) ∣ 10 ^ 21 := by decide
  have power : written (10 ^ 21) = 10 ^ 21 := by decide +kernel
  have rounded := nearest_written kept
  constructor
  · intro short
    have order := nearest_le whole (Nat.le_of_lt short)
    rw [rounded] at order
    refine Nat.lt_of_le_of_ne order ?_
    rintro rfl
    omega
  · intro short
    by_contra long
    have order := le_nearest whole (Nat.not_lt.mp long)
    omega

/-- A number up to the fifty-third power of two is written in all its digits. -/
private theorem written_of_le {value : Nat} (safe : value ≤ 2 ^ 53) : written value = value := by
  -- What is written is rounded to the number, and small numbers are not rounded.
  have rounded := nearest_written (nearest_of_le safe)
  by_cases short : written value ≤ 2 ^ 53
  · rw [nearest_of_le short] at rounded
    exact rounded
  · -- Rounding keeps to the side of the power, so the number is the power itself.
    have whole : unit (2 ^ 53) ∣ 2 ^ 53 := by decide
    have order := le_nearest whole (Nat.le_of_lt (Nat.not_le.mp short))
    have last : value = 2 ^ 53 := by omega
    rw [last]
    decide +kernel

/-- A number is written in decimal digits. -/
theorem isDigit_of_mem_toDigits {value : Nat} {c : Char} (member : c ∈ Nat.toDigits 10 value) :
    c.isDigit = true :=
  Nat.isDigit_of_mem_toDigits (by decide) (by decide) member

/-- Digits tell the number. -/
theorem toDigits_inj {value other : Nat} (same : Nat.toDigits 10 value = Nat.toDigits 10 other) :
    value = other := by
  have values := congrArg (Nat.ofDigitChars 10 · 0) same
  simpa using values

/-- A number with more than twenty-one digits is written with a power of ten, all others in full. -/
private theorem keptText_eq (value : Nat) : keptText value =
    if written value < 10 ^ 21 then Nat.toDigits 10 (written value)
    else scientific (Nat.toDigits 10 (digits value).1) (digits value).2 :=
  rfl

/-- A mantissa holds its digits and a point. -/
private theorem mem_mantissa {digits : List Char} {c : Char} (member : c ∈ mantissa digits) :
    c ∈ digits ∨ c = '.' := by
  -- A point stands behind the first digit, if there are more.
  unfold mantissa at member
  split at member
  · simp only [List.mem_cons] at member ⊢
    tauto
  · exact .inl member

/-- A mantissa tells its digits. -/
private theorem mantissa_inj {digits others : List Char}
    (same : mantissa digits = mantissa others) :
    digits = others := by
  -- One with a point has three characters at least, one without has one at most.
  match digits, others with
  | [], [] => rfl
  | [], [_] => cases same
  | [], _ :: _ :: _ => cases same
  | [_], [] => cases same
  | [_], [_] => exact same
  | [_], _ :: _ :: _ => simp [mantissa] at same
  | _ :: _ :: _, [] => cases same
  | _ :: _ :: _, [_] => simp [mantissa] at same
  | _ :: _ :: _, _ :: _ :: _ => simpa [mantissa] using same

/-- A text with a power of ten tells its digits and the zeros behind them. -/
private theorem scientific_inj {value other zeros more : Nat}
    (same : scientific (Nat.toDigits 10 value) zeros = scientific (Nat.toDigits 10 other) more) :
    value = other ∧ zeros = more := by
  -- The letter stands once in a text, so it divides both at the same place.
  have digit (number : Nat) : 'e' ∉ Nat.toDigits 10 number := fun member =>
    absurd (isDigit_of_mem_toDigits member) (by decide)
  have before : 'e' ∉ mantissa (Nat.toDigits 10 value) := by
    intro member
    rcases mem_mantissa member with inside | point
    · exact digit value inside
    · exact absurd point (by decide)
  have behind : 'e' ∉ '+' :: Nat.toDigits 10 ((Nat.toDigits 10 value).length - 1 + zeros) := by
    intro member
    rcases List.mem_cons.mp member with sign | inside
    · exact absurd sign (by decide)
    · exact digit _ inside
  obtain ⟨mantissas, -, powers⟩ := (List.append_cons_inj_of_notMem before behind).mp same
  have digits := mantissa_inj mantissas
  have power := toDigits_inj (List.cons.inj powers).2
  rw [digits] at power
  exact ⟨toDigits_inj digits, by omega⟩

/-- A text in full holds digits only, one with a power of ten does not. -/
theorem isDigits_keptText_iff (value : Nat) :
    (∀ c ∈ keptText value, c.isDigit = true) ↔ written value < 10 ^ 21 := by
  -- A power of ten is marked by a letter.
  rw [keptText_eq]
  constructor
  · intro numeral
    by_contra long
    rw [if_neg long] at numeral
    exact absurd (numeral 'e' (by simp [scientific])) (by decide)
  · intro short c member
    rw [if_pos short] at member
    exact isDigit_of_mem_toDigits member

/-- The text of a number that a double holds tells the number. -/
theorem keptText_inj {value other : Nat} (held : nearest value = value)
    (otherHeld : nearest other = other) (same : keptText value = keptText other) :
    value = other := by
  -- What is written rounds to the number, so it suffices that the texts stand for the same.
  rw [← nearest_written held, ← nearest_written otherHeld]
  refine congrArg nearest ?_
  have forms := (isDigits_keptText_iff value).symm.trans (same ▸ isDigits_keptText_iff other)
  rw [keptText_eq, keptText_eq] at same
  by_cases short : written value < 10 ^ 21
  · rw [if_pos short, if_pos (forms.mp short)] at same
    exact toDigits_inj same
  · rw [if_neg short, if_neg (forms.not.mp short)] at same
    obtain ⟨digits, zeros⟩ := scientific_inj same
    rw [written, written, digits, zeros]

/-- The text of a number that a double holds has digits, and no mark but those of a power of ten. -/
private theorem mem_keptText {value : Nat} {c : Char} (member : c ∈ keptText value) :
    c.isDigit = true ∨ c ∈ ['.', 'e', '+'] := by
  -- In full there are digits only; otherwise a mantissa, two marks and the digits of a power.
  rw [keptText_eq] at member
  split at member
  · exact .inl (isDigit_of_mem_toDigits member)
  · rw [scientific, List.mem_append, List.mem_cons, List.mem_cons] at member
    rcases member with front | rfl | rfl | power
    · rcases mem_mantissa front with digit | rfl
      · exact .inl (isDigit_of_mem_toDigits digit)
      · exact .inr (by decide)
    · exact .inr (by decide)
    · exact .inr (by decide)
    · exact .inl (isDigit_of_mem_toDigits power)

/-- A number is written as the one that a double keeps in its place, or as one beyond all doubles,
which is far beyond the numbers that are written in full. -/
private theorem naturalText_cases (value : Nat) :
    kept? value = some (nearest value) ∧ naturalText value = keptText (nearest value) ∨
      kept? value = none ∧ naturalText value = "Infinity".toList ∧ ¬ nearest value < 10 ^ 21 := by
  -- A double keeps powers of two up to the 1023rd.
  by_cases small : (nearest value).log2 < 1024
  · have kept : kept? value = some (nearest value) := if_pos small
    refine .inl ⟨kept, ?_⟩
    unfold naturalText
    rw [kept]
  · have beyond : kept? value = none := if_neg small
    refine .inr ⟨beyond, ?_, fun short => ?_⟩
    · unfold naturalText
      rw [beyond]
    · -- Twenty-one digits are far fewer bits than that.
      have order := log2_le_log2 (Nat.le_of_lt short)
      have power : Nat.log2 (10 ^ 21) = 69 := by decide
      omega

/-- The text of a number tells what a double keeps of it. -/
theorem naturalText_inj {value other : Nat} (same : naturalText value = naturalText other) :
    kept? value = kept? other := by
  -- The text of a number beyond all doubles starts with a letter that no other text has.
  have letter (number : Nat) : keptText number ≠ "Infinity".toList := by
    intro infinite
    have member : 'I' ∈ keptText number := by
      rw [infinite]
      decide
    rcases mem_keptText member with digit | mark
    · exact absurd digit (by decide)
    · exact absurd mark (by decide)
  rcases naturalText_cases value with ⟨kept, text⟩ | ⟨beyond, text, -⟩
  · rcases naturalText_cases other with ⟨otherKept, otherText⟩ | ⟨-, otherText, -⟩
    · rw [text, otherText] at same
      rw [kept, otherKept, keptText_inj (nearest_nearest value) (nearest_nearest other) same]
    · rw [text, otherText] at same
      exact absurd same (letter _)
  · rcases naturalText_cases other with ⟨-, otherText⟩ | ⟨otherBeyond, -, -⟩
    · rw [text, otherText] at same
      exact absurd same.symm (letter _)
    · rw [beyond, otherBeyond]

/-- A number is written in digits only exactly if what a double keeps of it has at most twenty-one
of them. -/
theorem isDigits_naturalText_iff (value : Nat) :
    (∀ c ∈ naturalText value, c.isDigit = true) ↔ nearest value < 10 ^ 21 := by
  -- What is written of a kept number is short exactly if the number is.
  rcases naturalText_cases value with ⟨-, text⟩ | ⟨-, text, long⟩
  · rw [text, isDigits_keptText_iff, written_lt_iff (nearest_nearest value)]
  · rw [text]
    exact ⟨fun numeral => absurd (numeral 'I' (by decide)) (by decide), fun short =>
      absurd short long⟩

/-- No text of a number holds an underscore. -/
theorem no_underscore_in_naturalText (value : Nat) : '_' ∉ naturalText value := by
  -- Digits and the marks of a power of ten are no underscores.
  intro member
  rcases naturalText_cases value with ⟨-, text⟩ | ⟨-, text, -⟩
  · rw [text] at member
    rcases mem_keptText member with digit | mark
    · exact absurd digit (by decide)
    · exact absurd mark (by decide)
  · rw [text] at member
    exact absurd member (by decide)

/-- Every number is written in one character or more. -/
theorem naturalText_ne_nil (value : Nat) : naturalText value ≠ [] := by
  -- Each of the three forms has a first character.
  unfold naturalText
  split
  · rw [keptText_eq]
    split
    · exact Nat.toDigits_ne_nil
    · simp [scientific]
  · decide

/-- A number that is not negative is written without a sign. -/
theorem toList_text (value : Nat) : (text value).toList = naturalText value := by
  simp [text]

/-- Numbers up to the fifty-third power of two are held by a double. -/
theorem kept?_of_le {value : Nat} (safe : value ≤ 2 ^ 53) : kept? value = some value := by
  -- The number is its own nearest double, and small.
  unfold kept?
  rw [nearest_of_le safe]
  exact if_pos (Nat.lt_of_le_of_lt (log2_le_log2 safe) (by decide))

/-- Numbers up to the fifty-third power of two are written in their digits. -/
theorem naturalText_of_le {value : Nat} (safe : value ≤ 2 ^ 53) :
    naturalText value = Nat.toDigits 10 value := by
  -- No rounding takes place, neither in keeping the number nor in writing it.
  have short : value < 10 ^ 21 := Nat.lt_of_le_of_lt safe (by decide)
  rcases naturalText_cases value with ⟨-, text⟩ | ⟨-, -, long⟩
  · rw [text, nearest_of_le safe, keptText_eq, written_of_le safe, if_pos short]
  · rw [nearest_of_le safe] at long
    exact absurd short long

end DoubleLang.Number
