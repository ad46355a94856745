import DoubleLang.Token.Piece

/-! A text cut into pieces from the left, as far as pieces can be found. -/

namespace DoubleLang

/-- A text cut from the left: its pieces, and the fault at which the cut stops short of the end. -/
structure Cut where
  pieces : List Piece
  fault : Option Piece.Fault
  deriving DecidableEq, Repr

namespace Cut

/-- The cut with one more piece in front. -/
def push (piece : Piece) (cut : Cut) : Cut :=
  ⟨piece :: cut.pieces, cut.fault⟩

/-- Cuts a text behind the characters that still belong to the piece before. -/
def ofTextFrom (owed : Nat) (afterOperand : Bool) : List Char → Cut
  | [] => ⟨[], none⟩
  | c :: rest =>
    match owed with
    -- This character has been taken already.
    | owed + 1 => ofTextFrom owed afterOperand rest
    | 0 =>
      match Piece.front afterOperand c rest with
      | .error fault => ⟨[], some fault⟩
      | .ok piece =>
        (ofTextFrom (piece.text.length - 1) (piece.leavesOperand afterOperand) rest).push piece

/-- Cuts a text from its start. -/
def ofText (text : List Char) : Cut :=
  ofTextFrom 0 false text

/-- The characters in front of the fault, or all of them. -/
def covered (cut : Cut) : List Char :=
  cut.pieces.flatMap Piece.text

/-- Characters owed to an earlier piece are passed over. -/
private theorem ofTextFrom_owed (owed : Nat) (afterOperand : Bool) (text : List Char) :
    ofTextFrom owed afterOperand text = ofTextFrom 0 afterOperand (text.drop owed) := by
  -- Each character pays back one that is owed.
  induction text generalizing owed with
  | nil => cases owed <;> rfl
  | cons c rest ih =>
    cases owed with
    | zero => rfl
    | succ owed => simpa [ofTextFrom] using ih owed

/-- A cut of a text that starts with a character goes on behind the piece in front. -/
theorem ofTextFrom_cons (afterOperand : Bool) (c : Char) (rest : List Char) :
    ofTextFrom 0 afterOperand (c :: rest) =
      match Piece.front afterOperand c rest with
      | .error fault => ⟨[], some fault⟩
      | .ok piece =>
        (ofTextFrom 0 (piece.leavesOperand afterOperand)
          ((c :: rest).drop piece.text.length)).push piece := by
  -- No character is owed, so a piece is looked for in front.
  rw [ofTextFrom]
  split
  · rfl
  · rename_i piece found
    -- The piece has at least the character it starts with.
    obtain ⟨tail, more, starts, _⟩ := Piece.front_append found
    rw [ofTextFrom_owed]
    simp [starts]

/-- The pieces of a cut are the front of the text, and all of it when there is no fault. -/
theorem covered_append (afterOperand : Bool) (text : List Char) :
    ∃ more, text = (ofTextFrom 0 afterOperand text).covered ++ more ∧
      ((ofTextFrom 0 afterOperand text).fault = none → more = []) := by
  -- The text is cut piece by piece, up to where no piece is found.
  match text with
  | [] => exact ⟨[], rfl, fun _ => rfl⟩
  | c :: rest =>
    rw [ofTextFrom_cons]
    split
    · exact ⟨c :: rest, rfl, by simp⟩
    · rename_i piece found
      obtain ⟨tail, later, starts, split⟩ := Piece.front_append found
      have remains : (c :: rest).drop piece.text.length = later := by simp [starts, split]
      -- What follows the piece is shorter, and is covered by the cut that goes on.
      have shorter : later.length < (c :: rest).length := by
        simp only [split, List.length_cons, List.length_append]
        omega
      obtain ⟨more, rebuilt, complete⟩ :=
        covered_append (piece.leavesOperand afterOperand) later
      refine ⟨more, ?_, ?_⟩
      · rw [remains]
        simp only [covered, push, List.flatMap_cons, starts, List.cons_append,
          List.append_assoc, List.cons.injEq, true_and]
        rw [split]
        exact congrArg (tail ++ ·) rebuilt
      · rw [remains]
        exact complete
termination_by text.length

end Cut

end DoubleLang
