import DoubleLang.Proofs.Token.Layout

/-!
Stretches of tokens and of the text under them.

Tokens stand in the text one behind another, so tokens that stand together cover a stretch of it,
from the start of the first to the end of the last. Such a stretch is cut into the same pieces in
any other text where what stands around it touches neither of its ends.
-/

namespace DoubleLang

namespace Text

/-- The characters of a text from one offset up to another. -/
def slice (first stop : Nat) (text : List Char) : List Char :=
  (takeUnits stop text).drop (takeUnits first text).length

/-- As many units as a front has are taken from it alone. -/
private theorem takeUnits_width (front rest : List Char) :
    takeUnits (width front) (front ++ rest) = front := by
  -- Characters are taken as long as units are left.
  induction front with
  | nil =>
    -- No character is without width, so none is taken.
    cases rest with
    | nil => rfl
    | cons c rest =>
      have wide := charWidth_pos c
      rw [List.nil_append, takeUnits, if_neg (by simp only [width_nil]; omega)]
  | cons c front ih =>
    -- The first character fits, and what it takes is no longer there for the rest.
    rw [List.cons_append, takeUnits, width_cons, if_pos (by omega), Nat.add_sub_cancel_left, ih]

/-- What stands between two fronts of a text is the slice between their ends. -/
theorem slice_width (front middle rest : List Char) :
    slice (width front) (width (front ++ middle)) (front ++ (middle ++ rest)) = middle := by
  rw [slice, takeUnits_width, ← List.append_assoc, takeUnits_width, List.drop_left]

end Text

/-- A span goes from the start of the first token to the end of the last. -/
def Span.Bounds (span : Span) (words : List Token) : Prop :=
  ∃ first last, words.head? = some first ∧ words.getLast? = some last ∧
    span = first.span.join last.span

/-- One span ends before another starts. -/
def Span.Precedes (first second : Span) : Prop :=
  first.stop.offset ≤ second.start.offset

/-- One span lies inside another. -/
def Span.Within (inner outer : Span) : Prop :=
  outer.start.offset ≤ inner.start.offset ∧ inner.stop.offset ≤ outer.stop.offset

/-- Tokens stand one behind another. -/
structure Token.InOrder (tokens : List Token) : Prop where
  forward : ∀ token ∈ tokens, token.span.start.offset ≤ token.span.stop.offset
  apart : tokens.Pairwise fun first second => first.span.Precedes second.span

/-- A token is bounded by its own span. -/
theorem Span.bounds_single (token : Token) : token.span.Bounds [token] :=
  ⟨token, token, rfl, rfl, rfl⟩

/-- Tokens are bounded by the spans of the outer two, whatever stands between these. -/
theorem Span.bounds_outer (first last : Token) (words : List Token) :
    (first.span.join last.span).Bounds (first :: (words ++ [last])) :=
  ⟨first, last, rfl, by simp [List.getLast?_cons], rfl⟩

/-- Spans that are joined bound all from the tokens of the first to those of the second. -/
theorem Span.Bounds.join {left right : Span} {words more : List Token}
    (first : left.Bounds words) (sign : Token) (last : right.Bounds more) :
    (left.join right).Bounds (words ++ sign :: more) := by
  -- The sign in the middle is neither the first token nor the last.
  obtain ⟨opening, -, opens, -, rfl⟩ := first
  obtain ⟨-, closing, -, closes, rfl⟩ := last
  refine ⟨opening, closing, ?_, ?_, rfl⟩
  · simp [opens]
  · simp [List.getLast?_cons, closes]

/-- Tokens that stand together among others are in order if all are. -/
theorem Token.InOrder.part {before own after : List Token}
    (order : InOrder (before ++ (own ++ after))) : InOrder own := by
  -- Order of all is order of any two, and these are two of all.
  refine ⟨fun token member => order.forward token (by simp [member]), ?_⟩
  have behind := (List.pairwise_append.mp order.apart).2.1
  exact (List.pairwise_append.mp behind).1

/-- What bounds tokens in order has each of them inside. -/
theorem Span.Bounds.within {span : Span} {words : List Token} (bounds : span.Bounds words)
    (order : Token.InOrder words) {token : Token} (member : token ∈ words) :
    token.span.Within span := by
  -- The first token starts first and the last one stops last.
  obtain ⟨first, last, opens, closes, rfl⟩ := bounds
  constructor
  · -- The token is the first one, or it stands behind it.
    obtain ⟨rest, rfl⟩ := List.head?_eq_some_iff.mp opens
    show first.span.start.offset ≤ token.span.start.offset
    rcases List.mem_cons.mp member with rfl | later
    · exact le_rfl
    · have forward := order.forward first (by simp)
      have apart : first.span.Precedes token.span :=
        (List.pairwise_cons.mp order.apart).1 token later
      unfold Span.Precedes at apart
      omega
  · obtain ⟨rest, rfl⟩ := List.getLast?_eq_some_iff.mp closes
    show token.span.stop.offset ≤ last.span.stop.offset
    rcases List.mem_append.mp member with earlier | same
    · have forward := order.forward last (by simp)
      have apart : token.span.Precedes last.span :=
        (List.pairwise_append.mp order.apart).2.2 token earlier last (by simp)
      unfold Span.Precedes at apart
      omega
    · rw [List.mem_singleton.mp same]

/-- What bounds some of the tokens lies inside what bounds all of them. -/
theorem Span.Bounds.within_of_part {outer inner : Span} {before own after : List Token}
    (bounds : outer.Bounds (before ++ (own ++ after))) (part : inner.Bounds own)
    (order : Token.InOrder (before ++ (own ++ after))) : inner.Within outer := by
  -- The first and the last of them lie inside, and what is between them follows.
  obtain ⟨first, last, opens, closes, rfl⟩ := part
  have start : first.span.Within outer :=
    bounds.within order (by simp [List.mem_of_head? opens])
  have stop : last.span.Within outer :=
    bounds.within order (by simp [List.mem_of_getLast? closes])
  exact ⟨start.1, stop.2⟩

namespace Piece

/-- Whether an operand stands before what follows pieces. -/
def leaveOperand (afterOperand : Bool) (pieces : List Piece) : Bool :=
  pieces.foldl leavesOperand afterOperand

/-- The text behind a piece is asked for its first character alone, unless that is a point. -/
private theorem Fits.of_same_start {afterOperand : Bool} {c : Char} {rest more : List Char}
    {piece : Piece}
    (fits : piece.Fits afterOperand (c :: rest)) (solid : c ≠ '.') :
    piece.Fits afterOperand (c :: more) := by
  -- What starts the text behind stays, so nothing asked about that changes.
  have same (belongs : Char → Bool) (starts : StartsWith belongs (c :: more)) :
      StartsWith belongs (c :: rest) := by
    obtain ⟨d, tail, split, member⟩ := starts
    cases split
    exact ⟨c, rest, rfl, member⟩
  cases piece with
  | blank c => exact fits
  | blockComment text => exact fits
  | lineComment text =>
    obtain ⟨body, feedless, closed | ⟨-, empty⟩⟩ := fits
    · exact ⟨body, feedless, .inl closed⟩
    · cases empty
  | lexeme kind text =>
    cases kind with
    | identifier => exact ⟨fits.1, fits.2.1, fun starts => fits.2.2 (same _ starts)⟩
    | number =>
      refine ⟨fits.1, ⟨fun starts => fits.2.1.1 (same _ starts), ?_⟩, fits.2.2⟩
      -- Only a number looks further than one character, and only behind a point.
      intro _ later point
      cases point
      exact absurd rfl solid
    | operator =>
      obtain ⟨d, spelled, sign, slash, minus⟩ := fits
      exact ⟨d, spelled, sign, fun slashed starts => slash slashed (same _ starts),
        fun negative starts => minus negative (same _ starts)⟩
    | punctuation => exact fits
    | keyword => exact ⟨fits.1, fun starts => fits.2 (same _ starts)⟩
    | finish => exact fits

/-- No piece starts with a point. -/
theorem Fits.starts {afterOperand : Bool} {rest : List Char} {piece : Piece}
    (fits : piece.Fits afterOperand rest) : ∃ c tail, piece.text = c :: tail ∧ c ≠ '.' := by
  -- A piece that fits is found at the front of its text.
  obtain ⟨c, tail, spelled, found⟩ := front_of_fits fits
  refine ⟨c, tail, spelled, ?_⟩
  intro point
  subst point
  -- A point belongs to no class of characters that a piece starts with.
  have outside : Text.isBlank '.' = false ∧ startsIdentifier '.' = false ∧
      isOperator '.' = false ∧ isPunctuation '.' = false := by decide
  simp [front, lexeme?, number?, unsigned?, outside] at found

/-- Pieces fit with others behind them if the last one does. -/
theorem FitInTurn.exchange {afterOperand : Bool} {front rest others : List Piece} {last : Piece}
    (fit : FitInTurn afterOperand (front ++ last :: rest))
    (ends : ∀ before, last.Fits before (rest.flatMap Piece.text) →
      last.Fits before (others.flatMap Piece.text))
    (later : FitInTurn (leaveOperand afterOperand (front ++ [last])) others) :
    FitInTurn afterOperand (front ++ last :: others) := by
  -- Pieces in front of the last one look no further than the start of the next.
  induction front generalizing afterOperand with
  | nil => exact ⟨ends _ fit.1, later⟩
  | cons piece front ih =>
    rw [List.cons_append] at fit ⊢
    refine ⟨?_, ih fit.2 later⟩
    -- Behind the piece comes the same one as before, and its first character is no point.
    obtain ⟨next, tail, shape⟩ : ∃ next tail, ∀ behind : List Piece,
        front ++ last :: behind = next :: (tail ++ behind) := by
      cases front with
      | nil => exact ⟨last, [], fun _ => rfl⟩
      | cons next tail => exact ⟨next, tail ++ [last], fun _ => by simp⟩
    have here := fit.1
    have behind := fit.2
    rw [shape] at here behind
    obtain ⟨c, text, spelled, solid⟩ := behind.1.starts
    rw [shape]
    simp only [List.flatMap_cons, spelled, List.cons_append] at here ⊢
    exact here.of_same_start solid

/-- A lexeme that is no operation fits where no operand stands before it, if it fits at all. -/
theorem Fits.without_operand {afterOperand : Bool} {kind : Token.Kind} {text rest : List Char}
    (fits : (lexeme kind text).Fits afterOperand rest) (plain : kind ≠ .operator) :
    (lexeme kind text).Fits false rest := by
  -- Only a number asks for the operand in front of it, for its sign.
  cases kind with
  | number => exact ⟨fits.1, fits.2.1, fun _ => rfl⟩
  | operator => exact absurd rfl plain
  | _ => exact fits

/-- Pieces behind others that fit in turn fit in turn themselves. -/
theorem FitInTurn.behind {afterOperand : Bool} {front rest : List Piece}
    (fit : FitInTurn afterOperand (front ++ rest)) :
    FitInTurn (leaveOperand afterOperand front) rest := by
  -- Each piece hands on whether an operand stands before the next.
  induction front generalizing afterOperand with
  | nil => exact fit
  | cons piece front ih => exact ih fit.2

end Piece

namespace Token

/-- Tokens are placed in order, none of them before the place where the pieces start. -/
private theorem inOrder_place (file : String) (start : Position) (pieces : List Piece) :
    InOrder (place file start pieces) ∧
      ∀ token ∈ place file start pieces, start.offset ≤ token.span.start.offset := by
  -- Each piece moves the place on, and a token spans its piece.
  induction pieces generalizing start with
  | nil => exact ⟨⟨by simp [place], by simp [place]⟩, by simp [place]⟩
  | cons piece rest ih =>
    obtain ⟨order, late⟩ := ih (start.after piece.text)
    -- What follows a piece starts behind it.
    have moved := Position.offset_after start piece.text
    have further : ∀ token ∈ place file (start.after piece.text) rest,
        start.offset ≤ token.span.start.offset := by
      intro token member
      have behind := late token member
      omega
    cases piece with
    | lexeme kind text =>
      refine ⟨⟨?_, List.pairwise_cons.mpr ⟨late, order.apart⟩⟩, ?_⟩
      · intro token member
        rcases List.mem_cons.mp member with rfl | later
        · show start.offset ≤ (start.after text).offset
          simp only [Piece.text] at moved
          omega
        · exact order.forward token later
      · intro token member
        rcases List.mem_cons.mp member with rfl | later
        · exact le_rfl
        · exact further token later
    | _ => exact ⟨order, further⟩

/-- The piece of a token. -/
def piece (token : Token) : Piece :=
  .lexeme token.kind token.text.toList

/-- The lexemes of pieces are the kinds and texts of their tokens. -/
private theorem lexemes_of_place (file : String) (start : Position) (pieces : List Piece) :
    pieces.filterMap Piece.asLexeme? =
      (place file start pieces).map fun token => (token.kind, token.text.toList) := by
  -- Only lexemes have tokens, and those keep kind and text.
  induction pieces generalizing start with
  | nil => rfl
  | cons piece rest ih =>
    cases piece with
    | lexeme kind text => simp [place, Piece.asLexeme?, Piece.text, ih (start.after text)]
    | _ => exact ih _

/-- A piece without a token moves what follows it. -/
private theorem place_of_silent {piece : Piece} (silent : piece.asLexeme? = none) (file : String)
    (start : Position) (rest : List Piece) :
    place file start (piece :: rest) = place file (start.after piece.text) rest := by
  -- Only lexemes have tokens.
  cases piece with
  | lexeme kind text => cases silent
  | _ => rfl

/-- A token among those of pieces stems from one of them, which covers its span. -/
private theorem place_split {file : String} {start : Position} {pieces : List Piece}
    {before after : List Token} {token : Token}
    (split : place file start pieces = before ++ token :: after) :
    ∃ front rest, pieces = front ++ token.piece :: rest ∧ place file start front = before ∧
      token.span.start = start.after (front.flatMap Piece.text) ∧
      token.span.stop = token.span.start.after token.text.toList ∧
      place file token.span.stop rest = after := by
  -- A piece is passed over unless it is that of the token.
  induction pieces generalizing start before with
  | nil => simp [place] at split
  | cons piece rest ih =>
    cases found : piece.asLexeme? with
    | none =>
      rw [place_of_silent found] at split
      obtain ⟨front, behind, rfl, rfl, starts, stops, same⟩ := ih split
      exact ⟨piece :: front, behind, rfl, place_of_silent found .., by simp [starts], stops, same⟩
    | some lexeme =>
      cases piece with
      | lexeme kind text =>
        simp only [place, Piece.text] at split
        cases before with
        | nil =>
          -- The first lexeme is the token itself.
          rw [List.nil_append, List.cons.injEq] at split
          obtain ⟨rfl, rfl⟩ := split
          exact ⟨[], rest, by simp [Token.piece], rfl, rfl, by simp, rfl⟩
        | cons head before =>
          rw [List.cons_append, List.cons.injEq] at split
          obtain ⟨rfl, split⟩ := split
          obtain ⟨front, behind, rfl, rfl, starts, stops, same⟩ := ih split
          exact ⟨.lexeme kind text :: front, behind, rfl, rfl, by simp [starts, Piece.text], stops,
            same⟩
      | _ => cases found

/-- No token but the last one of a text ends the input. -/
theorem kind_ne_finish (file : String) {text : String} {pieces : List Piece}
    (cut : Cut.ofText text.toList = ⟨pieces, none⟩) :
    ∀ token ∈ place file .start pieces, token.kind ≠ .finish := by
  -- A token comes from a piece of its kind.
  intro token member finish
  obtain ⟨before, after, split⟩ := List.append_of_mem member
  obtain ⟨front, rest, rfl, -⟩ := place_split split
  -- No piece of that kind fits anywhere.
  have fit := ((Piece.ofTextFrom_eq_iff false _ _).mp cut).2.behind
  have fits := fit.1
  rw [piece, finish] at fits
  exact fits

/-- The tokens of a text are in order. -/
theorem inOrder_of_scan {file text : String} {tokens : List Token}
    (scanned : scan file text = .ok tokens) : InOrder tokens := by
  -- The last token stands behind all pieces, and is empty.
  obtain ⟨pieces, cut, rfl⟩ := cut_of_scan scanned
  have covered := ((Piece.ofTextFrom_eq_iff false _ _).mp cut).1
  obtain ⟨order, -⟩ := inOrder_place file .start pieces
  constructor
  · intro token member
    rcases List.mem_append.mp member with placed | last
    · exact order.forward token placed
    · rw [List.mem_singleton.mp last]
  · refine List.pairwise_append.mpr ⟨order.apart, by simp, ?_⟩
    intro token member last final
    rw [List.mem_singleton.mp final]
    -- A token ends where its piece does, and more may follow in the text.
    obtain ⟨before, after, split⟩ := List.append_of_mem member
    obtain ⟨front, rest, rfl, -, starts, stops, -⟩ := place_split split
    show token.span.stop.offset ≤ (Position.start.after text.toList).offset
    rw [← covered, stops, starts]
    simp only [Position.offset_after, List.flatMap_append, List.flatMap_cons, Text.width_append,
      piece, Piece.text]
    omega

/-- Tokens that stand together among those of pieces stem from pieces that stand together, which
start with the first token and end in the last. -/
theorem place_stretch {file : String} {start : Position} {pieces : List Piece}
    {before words after : List Token} {span : Span}
    (split : place file start pieces = before ++ (words ++ after)) (bounds : span.Bounds words) :
    ∃ front middle rest, pieces = front ++ (middle ++ rest) ∧
      middle.filterMap Piece.asLexeme? = words.map (fun word => (word.kind, word.text.toList)) ∧
      span.start = start.after (front.flatMap Piece.text) ∧
      span.stop = start.after ((front ++ middle).flatMap Piece.text) ∧
      (∃ first more, words.head? = some first ∧ middle = first.piece :: more) ∧
      ∃ last more, middle = more ++ [Token.piece last] := by
  -- Pieces are cut at the first token, and what follows it at the last.
  obtain ⟨first, last, opens, closes, rfl⟩ := bounds
  obtain ⟨inner, rfl⟩ := List.head?_eq_some_iff.mp opens
  obtain ⟨front, behind, rfl, rfl, starts, stops, same⟩ := place_split split
  rcases List.eq_nil_or_concat' inner with rfl | ⟨init, final, rfl⟩
  · -- A single token is the first and the last.
    obtain rfl : first = last := Option.some.inj closes
    refine ⟨front, [first.piece], behind, rfl, rfl, starts, ?_, ⟨first, [], rfl, rfl⟩,
      first, [], rfl⟩
    simp [Span.join, stops, starts, Piece.text, Token.piece]
  · obtain rfl : final = last := by simpa [List.getLast?_cons] using closes
    have inside : place file first.span.stop behind = init ++ final :: after := by
      simpa using same
    obtain ⟨gap, rest, rfl, read, begins, ends, -⟩ := place_split inside
    refine ⟨front, first.piece :: (gap ++ [final.piece]), rest, by simp, ?_, starts, ?_,
      ⟨first, _, rfl, rfl⟩, final, first.piece :: gap, rfl⟩
    · simp [lexemes_of_place file first.span.stop gap, read, Token.piece, Piece.asLexeme?]
    · simp [Span.join, ends, begins, stops, starts, Piece.text, Token.piece]

end Token

end DoubleLang
