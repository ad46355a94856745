import DoubleLang.Text.Unit
import Mathlib.Data.List.Basic

/-!
The order of names by their units.

Units tell the text they were made from, so names that differ are strictly ordered, one way or the
other.
-/

namespace DoubleLang.Text

/-- The code of a character is not that of half a pair. -/
theorem toNat_apart (c : Char) : c.toNat < 0xD800 ∨ 0xDFFF < c.toNat ∧ c.toNat < 0x110000 := by
  -- A character carries the proof that its code is one.
  rcases c.valid with low | ⟨above, last⟩
  · exact .inl low
  · exact .inr ⟨above, last⟩

/-- A character is told from the units it starts with, and so is what follows it. -/
private theorem charUnits_append_inj {c d : Char} {rest others : List UInt16}
    (same : charUnits c ++ rest = charUnits d ++ others) : c = d ∧ rest = others := by
  -- No code of a character lies among the halves of pairs.
  have first := toNat_apart c
  have second := toNat_apart d
  -- Characters are equal when their codes are.
  have equal (codes : c.toNat = d.toNat) : c = d := Char.ext (UInt32.toNat_inj.mp codes)
  unfold charUnits at same
  -- A single unit is no high half, so both characters have one unit or both have two.
  split at same <;> split at same <;>
    simp only [List.cons_append, List.nil_append, List.cons.injEq, ← UInt16.toNat_inj,
      Nat.toUInt16_eq, UInt16.toNat_ofNat'] at same
  · exact ⟨equal (by omega), same.2⟩
  · omega
  · omega
  · exact ⟨equal (by omega), same.2.2⟩

/-- Texts of the same units are the same. -/
private theorem units_injective {first second : List Char} (same : units first = units second) :
    first = second := by
  -- Character by character: the units tell the first, and then the rest.
  induction first generalizing second with
  | nil =>
    -- No character is without units.
    cases second with
    | nil => rfl
    | cons d others =>
      have wide := charWidth_pos d
      have length := congrArg List.length same
      simp only [length_units, width_nil, width_cons] at length
      omega
  | cons c rest ih =>
    cases second with
    | nil =>
      have wide := charWidth_pos c
      have length := congrArg List.length same
      simp only [length_units, width_nil, width_cons] at length
      omega
    | cons d others =>
      obtain ⟨rfl, later⟩ := charUnits_append_inj
        (show charUnits c ++ units rest = charUnits d ++ units others from same)
      rw [ih later]

/-- A name that comes before another comes before all that follow that one. -/
theorem precedes_trans {a b c : String} (first : precedes a b = true)
    (second : precedes b c = true) :
    precedes a c = true := by
  simp only [precedes, decide_eq_true_eq] at first second ⊢
  exact List.le_trans first second

/-- Of two names one comes before the other. -/
theorem precedes_total (a b : String) : (precedes a b || precedes b a) = true := by
  simpa [precedes] using List.le_total (units a.toList) (units b.toList)

/-- A name that comes before a different one is strictly less. -/
theorem lt_of_precedes_of_ne {a b : String} (before : precedes a b = true) (differ : a ≠ b) :
    units a.toList < units b.toList := by
  -- To precede is to be at most as large, unit by unit.
  simp only [precedes, decide_eq_true_eq] at before
  -- Otherwise each would come before the other, and they would have the same units.
  rw [← List.not_le]
  intro back
  exact differ (String.toList_injective (units_injective (List.le_antisymm before back)))

end DoubleLang.Text
