import DoubleLang.Proofs.Text.Order
import DoubleLang.Source.LineTable
import Mathlib.Data.List.Induction

/-!
Lines and columns by counting.

The line of a place is told by the line feeds in front of it, and its column by the units behind the
last of them. A walk through a text, character by character, and a search in its table of lines both
come to what is counted.
-/

namespace DoubleLang

namespace Text

/-- The unit of a line feed. -/
def lineFeed : UInt16 := 10

/-- A line feed is one unit. -/
private theorem charUnits_feed : charUnits '\n' = [lineFeed] := by decide

/-- No unit of any other character is that of a line feed. -/
private theorem lineFeed_not_mem {c : Char} (other : c ≠ '\n') : lineFeed ∉ charUnits c := by
  -- Units are compared by their codes.
  have codes : c.toNat ≠ 10 := fun same => other (Char.ext (UInt32.toNat_inj.mp same))
  have apart := toNat_apart c
  unfold charUnits
  -- The halves of a pair lie far above, and a single unit is the code itself.
  split <;> simp only [lineFeed, List.mem_cons, List.not_mem_nil, or_false, ← UInt16.toNat_inj,
    Nat.toUInt16_eq, UInt16.toNat_ofNat', UInt16.toNat_ofNat] <;> omega

end Text

namespace Position

/-- The position behind some units: the line by the line feeds among them, and the column by the
units behind the last of these. -/
def counted (passed : List UInt16) : Position :=
  ⟨1 + passed.count Text.lineFeed,
    1 + (passed.reverse.takeWhile (· ≠ Text.lineFeed)).length, passed.length⟩

/-- One more character counts as it is passed. -/
private theorem counted_append_charUnits (passed : List UInt16) (c : Char) :
    counted (passed ++ Text.charUnits c) = (counted passed).advance c := by
  -- A line feed starts a line, and any other character makes it longer.
  by_cases feed : c = '\n'
  · subst feed
    simp [counted, advance, Text.charUnits_feed, Nat.add_assoc]
  · -- The units of the character go on with the line.
    have other := Text.lineFeed_not_mem feed
    have inside : ∀ unit ∈ (Text.charUnits c).reverse, decide (unit ≠ Text.lineFeed) = true := by
      intro unit member
      simp only [decide_eq_true_eq]
      intro same
      exact other (same ▸ List.mem_reverse.mp member)
    simp only [counted, advance, if_neg feed, List.count_append,
      List.count_eq_zero_of_not_mem other, List.reverse_append,
      List.takeWhile_append_of_pos inside, List.length_append, List.length_reverse,
      Text.length_charUnits, mk.injEq, and_true]
    omega

/-- Walking on through a text counts its units behind those that have been passed. -/
private theorem after_counted (passed : List UInt16) (text : List Char) :
    (counted passed).after text = counted (passed ++ Text.units text) := by
  -- Walking goes on character by character, and so does counting.
  induction text generalizing passed with
  | nil => simp [Text.units]
  | cons c rest ih =>
    rw [after_cons, ← counted_append_charUnits, ih, Text.units_cons, List.append_assoc]

end Position

namespace LineTable

/-- Lines start behind the line feeds among the units. -/
private theorem feedEnds_eq (offset : Nat) (text : List Char) :
    feedEnds offset text = (Text.units text).idxsOf Text.lineFeed (offset + 1) := by
  -- A line feed is found in its own unit, and none in those of another character.
  induction text generalizing offset with
  | nil => rfl
  | cons c rest ih =>
    rw [Text.units_cons, List.idxsOf_append, Text.length_charUnits]
    by_cases feed : c = '\n'
    · subst feed
      have single : Text.charWidth '\n' = 1 := by decide
      simp [feedEnds, ih, Text.charUnits_feed, single]
    · have silent : (Text.charUnits c).idxsOf Text.lineFeed (offset + 1) = [] := by
        rw [List.idxsOf_eq_nil_iff]
        intro unit member
        have differs : unit ≠ Text.lineFeed := by
          intro same
          exact Text.lineFeed_not_mem feed (same ▸ member)
        simpa using differs
      rw [feedEnds, if_neg feed, ih, silent, List.nil_append, Nat.add_right_comm]

/-- The units behind the last line feed are those that follow the start of the last line. -/
private theorem getLastD_idxsOf_feed (passed : List UInt16) :
    (passed.idxsOf Text.lineFeed 1).getLastD 0 +
      (passed.reverse.takeWhile (· ≠ Text.lineFeed)).length = passed.length := by
  -- From the right, a line feed starts a line at the end, and any other unit goes on with it.
  induction passed using List.reverseRecOn with
  | nil => rfl
  | append_singleton front unit ih =>
    rw [List.idxsOf_append]
    by_cases feed : unit = Text.lineFeed
    · simp [feed, Nat.add_comm]
    · have silent : [unit].idxsOf Text.lineFeed (1 + front.length) = [] := by simp [feed]
      rw [silent, List.append_nil, List.reverse_append, List.reverse_singleton,
        List.singleton_append, List.takeWhile_cons_of_pos (by simpa using feed), List.length_cons,
        List.length_append, List.length_singleton]
      omega

/-- Looking up an offset counts the units in front of it. -/
private theorem positionAt_ofText (text : List Char) (offset : Int) :
    (ofText text).positionAt offset =
      .counted ((Text.units text).take (min offset.toNat (Text.width text))) := by
  -- The offset is cut to the text first.
  obtain ⟨place, clamped⟩ : ∃ place, min offset.toNat (Text.width text) = place := ⟨_, rfl⟩
  obtain ⟨passed, front⟩ : ∃ passed, (Text.units text).take place = passed := ⟨_, rfl⟩
  rw [clamped, front]
  have length : passed.length = place := by simp [← front, ← clamped]
  -- The lines behind the line feeds that have been passed are early, and all others are late.
  have split : feedEnds 0 text =
      passed.idxsOf Text.lineFeed 1 ++
        ((Text.units text).drop place).idxsOf Text.lineFeed (1 + place) := by
    rw [feedEnds_eq, ← length, ← List.idxsOf_append, length, ← front, List.take_append_drop]
  have early : ∀ start ∈ 0 :: passed.idxsOf Text.lineFeed 1, start ≤ place := by
    intro start listed
    rcases List.mem_cons.mp listed with rfl | behind
    · exact Nat.zero_le _
    · have bound := List.lt_add_of_mem_idxsOf start behind
      omega
  have late : ∀ start ∈ ((Text.units text).drop place).idxsOf Text.lineFeed (1 + place),
      place < start := by
    intro start listed
    have bound := List.ge_of_mem_idxsOf start listed
    omega
  have column := getLastD_idxsOf_feed passed
  rw [ofText, split, ← List.cons_append, positionAt_append place clamped (by simp) early late]
  simp only [Position.counted, List.length_cons, List.length_idxsOf, List.getLastD_cons,
    Position.mk.injEq]
  omega

/-- Looking up the offset behind the front of a text gives the position behind that front. -/
theorem positionAt_width (front rest : List Char) :
    (ofText (front ++ rest)).positionAt (Text.width front) = Position.start.after front := by
  -- As many units are taken as the front is wide, and these are its own.
  have passed : (Text.units (front ++ rest)).take (Text.width front) = Text.units front := by
    rw [Text.units_append, ← Text.length_units, List.take_left]
  have walked : Position.start.after front = .counted (Text.units front) :=
    Position.after_counted [] front
  rw [positionAt_ofText, walked]
  simp [passed]

/-- Positions agree with a plain count. For any offset, taken to the nearer end of the text, the
line counts the line feeds in front of it, and the column the units behind the last of them. -/
theorem positions_agree_with_counting (text : List Char) (offset : Int) :
    let units := Text.units text
    let place := (max 0 (min offset units.length)).toNat
    let passed := units.take place
    (ofText text).positionAt offset =
      ⟨1 + passed.count 10, 1 + (passed.reverse.takeWhile (· ≠ 10)).length, place⟩ := by
  -- The offset is cut to the text either way.
  intro units place passed
  have clamped : min offset.toNat (Text.width text) = place := by
    simp only [place, units, Text.length_units]
    omega
  have length : passed.length = place := by
    simp [passed, units, ← clamped]
  rw [positionAt_ofText, clamped]
  exact congrArg (Position.mk _ _) length

end LineTable

end DoubleLang
