import DoubleLang.Source.Position

/-! A text indexed by line, so that any offset can be reported as a position. -/

namespace DoubleLang

/-- The offsets at which the lines of a text start, and the length of the text. -/
structure LineTable where
  starts : List Nat
  length : Nat
  deriving DecidableEq, Repr

namespace LineTable

/-- The offsets behind the line feeds of a text that begins at an offset. -/
def feedEnds (offset : Nat) : List Char → List Nat
  | [] => []
  | c :: rest =>
    if c = '\n' then (offset + 1) :: feedEnds (offset + 1) rest
    else feedEnds (offset + Text.charWidth c) rest

/-- The table of a text: a first line at zero, and one line behind each line feed. -/
def ofText (text : List Char) : LineTable :=
  ⟨0 :: feedEnds 0 text, Text.width text⟩

/-- Halves the lines from one bound up to another until the last line is found that starts at a
place or before it; the lines in front of the bounds do so, and the last of them is known. -/
def seek (starts : List Nat) (place found left right : Nat) : Nat :=
  if left < right then
    let probe := (left + right) / 2
    if starts[probe]?.any (· ≤ place) then seek starts place probe (probe + 1) right
    else seek starts place found left probe
  else found
termination_by right - left

/-- The position of an offset, taken to the nearer end of the text when it lies outside. -/
def positionAt (table : LineTable) (offset : Int) : Position :=
  -- The last line that starts at the place or before it is the one that holds it.
  let place := min offset.toNat table.length
  let line := seek table.starts place 0 1 table.starts.length
  ⟨line + 1, place - table.starts.getD line 0 + 1, place⟩

/-- The span of a half-open range of offsets. -/
def span (table : LineTable) (file : String) (start stop : Int) : Span :=
  ⟨file, table.positionAt start, table.positionAt stop⟩

/-- A probe hits a line that starts early enough exactly if it is among the lines that do. -/
private theorem any_getElem?_append {early late : List Nat} {place : Nat}
    (reached : ∀ start ∈ early, start ≤ place) (missed : ∀ start ∈ late, place < start)
    (probe : Nat) : (early ++ late)[probe]?.any (· ≤ place) = true ↔ probe < early.length := by
  -- Early lines stand in front of all late ones.
  constructor
  · intro hit
    -- Behind the early lines a probe finds a late one, or none at all.
    apply Nat.lt_of_not_le
    intro behind
    rw [List.getElem?_append_right behind] at hit
    cases found : late[probe - early.length]? with
    | none => simp [found] at hit
    | some start =>
      have beyond := missed start (List.mem_of_getElem? found)
      have within : start ≤ place := by simpa [found] using hit
      omega
  · intro inside
    rw [List.getElem?_append_left inside, List.getElem?_eq_getElem inside]
    simpa using reached _ (List.getElem_mem inside)

/-- Halving finds the last of the lines that start early enough, from any bounds around its end. -/
private theorem seek_append {early late : List Nat} {place found left right : Nat}
    (reached : ∀ start ∈ early, start ≤ place) (missed : ∀ start ∈ late, place < start)
    (known : left = found + 1) (low : left ≤ early.length) (high : early.length ≤ right) :
    seek (early ++ late) place found left right + 1 = early.length := by
  -- The end of the early lines stays between the bounds, whichever of them a probe moves.
  fun_induction seek (early ++ late) place found left right with
  | case1 found left right apart probe hit ih =>
    have inside := (any_getElem?_append reached missed probe).mp hit
    exact ih rfl inside high
  | case2 found left right apart probe miss ih =>
    have behind := mt (any_getElem?_append reached missed probe).mpr miss
    exact ih known low (Nat.le_of_not_lt behind)
  | case3 found left right met => omega

/-- In a table of early and late lines a place is on the last early one. -/
theorem positionAt_append {early late : List Nat} {length : Nat} {offset : Int} (place : Nat)
    (clamped : min offset.toNat length = place) (filled : early ≠ [])
    (reached : ∀ start ∈ early, start ≤ place) (missed : ∀ start ∈ late, place < start) :
    positionAt ⟨early ++ late, length⟩ offset =
      ⟨early.length, place - early.getLastD 0 + 1, place⟩ := by
  -- The search ends at the last early line, whose start is where columns count from.
  have first := List.length_pos_iff.mpr filled
  have last : seek (early ++ late) place 0 1 (early ++ late).length + 1 = early.length :=
    seek_append reached missed rfl first (by simp)
  have start : (early ++ late).getD (seek (early ++ late) place 0 1 (early ++ late).length) 0 =
      early.getLastD 0 := by
    rw [List.getD_eq_getElem?_getD, List.getElem?_append_left (by omega), List.getLastD_eq_getLast?,
      List.getLast?_eq_getElem?]
    congr 2
    omega
  simp only [positionAt, clamped, last, start]

end LineTable

end DoubleLang
