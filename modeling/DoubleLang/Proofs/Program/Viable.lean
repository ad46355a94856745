import DoubleLang.Proofs.Program.Soundness
import Mathlib.Data.List.Infix
import Mathlib.Data.List.TakeWhile
import Mathlib.Order.Bounds.Defs

/-!
The token at which a program breaks off.

Whatever has been read can still be completed, from every state and at every depth of parentheses.
So the tokens in front of a refused one start some sentence, and together with it they start none.
-/

namespace DoubleLang

namespace Reading

/-- More tokens can follow that end the declaration being read. -/
def Completable (reading : Reading) : Prop :=
  ∃ more constants functions, reading.steps more = .ok ⟨constants, functions, .declaration⟩

/-- A token of a kind and a text, wherever it stands. -/
def sample (kind : Token.Kind) (text : String) : Token :=
  ⟨kind, text, default⟩

/-- What can be completed behind one more token can be completed. -/
private theorem Completable.of_step {reading next : Reading} (token : Token)
    (step : reading.step? token = some next) (rest : next.Completable) : reading.Completable := by
  obtain ⟨more, constants, functions, read⟩ := rest
  exact ⟨token :: more, constants, functions, by rw [steps, step]; exact read⟩

variable (reading : Reading)

/-- Between statements a brace ends the function. -/
private theorem completable_statement (body : Body) :
    (reading.enter (.statement body)).Completable := by
  -- Behind the brace the reading is between declarations.
  apply Completable.of_step (sample .punctuation "\x7d")
  · rfl
  · exact ⟨[], _, _, rfl⟩

/-- Behind an operand every open expression can be closed, and then the statement. -/
private theorem completable_afterOperand (body : Body) (sum product : Option Waiting)
    (purpose : Purpose)
    (last : Expr Span) :
    (reading.enter (.afterOperand body ⟨sum, product, purpose⟩ last)).Completable := by
  -- A purpose keeps the levels further out, and each of them is closed in turn.
  induction purpose generalizing sum product last with
  | returned keyword =>
    exact .of_step (sample .punctuation ";") rfl (completable_statement reading _)
  | assigned target =>
    exact .of_step (sample .punctuation ";") rfl (completable_statement reading _)
  | grouped opening outerSum outerProduct outer ih =>
    exact .of_step (sample .punctuation ")") rfl (ih outerSum outerProduct _)
  | argument callee earlier outerSum outerProduct outer ih =>
    exact .of_step (sample .punctuation ")") rfl (ih outerSum outerProduct _)

/-- Where an operand is asked for a number is one. -/
private theorem completable_operand (body : Body) (level : Level) :
    (reading.enter (.operand body level)).Completable :=
  .of_step (sample .number "0") rfl
    (completable_afterOperand reading body level.sum level.product level.purpose _)

/-- A body can be opened and ended without a statement. -/
private theorem completable_bodyOpen (head : Head) : (reading.enter (.bodyOpen head)).Completable :=
  .of_step (sample .punctuation "\x7b") rfl (completable_statement reading _)

/-- Behind a parameter the list can be closed. -/
private theorem completable_afterParameter (head : Head) :
    (reading.enter (.afterParameter head)).Completable :=
  .of_step (sample .punctuation ")") rfl (completable_bodyOpen reading head)

/-- What has been read so far can be completed, whatever it is. -/
private theorem completable : reading.Completable := by
  -- For each state there is a token that leads on, up to the end of a declaration.
  obtain ⟨constants, functions, state⟩ := reading
  let reading : Reading := ⟨constants, functions, .declaration⟩
  have constantEnd (name value : Token) : (reading.enter (.constantEnd name value)).Completable :=
    .of_step (sample .punctuation ";") rfl ⟨[], _, _, rfl⟩
  have constantValue (name : Token) : (reading.enter (.constantValue name)).Completable :=
    .of_step (sample .number "0") rfl (constantEnd name _)
  have firstParameter (head : Head) : (reading.enter (.firstParameter head)).Completable :=
    .of_step (sample .punctuation ")") rfl (completable_bodyOpen reading head)
  have parametersOpen (keyword name : Token) :
      (reading.enter (.parametersOpen keyword name)).Completable :=
    .of_step (sample .punctuation "(") rfl (firstParameter _)
  cases state with
  | declaration => exact ⟨[], _, _, rfl⟩
  | constantEquals name =>
    exact .of_step (sample .punctuation "=") rfl (constantValue name)
  | constantValue name => exact constantValue name
  | constantEnd name value => exact constantEnd name value
  | functionName keyword =>
    exact .of_step (sample .identifier "f") rfl (parametersOpen keyword _)
  | parametersOpen keyword name => exact parametersOpen keyword name
  | firstParameter head => exact firstParameter head
  | nextParameter head =>
    exact .of_step (sample .identifier "x") rfl (completable_afterParameter reading _)
  | afterParameter head => exact completable_afterParameter reading head
  | bodyOpen head => exact completable_bodyOpen reading head
  | statement body => exact completable_statement reading body
  | assignmentEquals body target =>
    exact .of_step (sample .punctuation "=") rfl (completable_operand reading body _)
  | operand body level => exact completable_operand reading body level
  | firstArgument body level callee =>
    exact .of_step (sample .punctuation ")") rfl
      (completable_afterOperand reading body level.sum level.product level.purpose _)
  | afterName body level name =>
    -- A sign behind the name asks for one more operand.
    exact .of_step (sample .operator "*") rfl (completable_operand reading body _)
  | afterOperand body level last =>
    exact completable_afterOperand reading body level.sum level.product level.purpose last

/-- A token that ends the input is read in no state. -/
private theorem step?_of_finish {token : Token} (ends : token.kind = .finish) :
    reading.step? token = none := by
  -- Every state asks for a kind of token, and none for this one.
  obtain ⟨constants, functions, state⟩ := reading
  have unsigned (ops : List BinaryOp) : operation? ops token = none := by
    simp [operation?, ends]
  have unclosed (body : Body) (purpose : Purpose) (whole : Expr Span) :
      leaveExpression? body purpose whole token = none := by
    cases purpose <;> simp [leaveExpression?, Token.isMark, ends]
  cases state <;>
    simp [step?, enterOperand?, leaveOperand?, unsigned, unclosed, Token.isMark, Token.isKeyword,
      Token.isIdentifier, Token.isNumber, ends]

/-- Reading breaks off at a token that the state before it does not admit. -/
private theorem steps_eq_error {reading : Reading} {words : List Token} {refusal : Refusal}
    (failed : reading.steps words = .error refusal) :
    ∃ before token rest next, words = before ++ token :: rest ∧ reading.steps before = .ok next ∧
      next.step? token = none ∧ refusal = .unexpected next.state.expected token := by
  -- The first token that is not admitted is found by going through them.
  induction words generalizing reading with
  | nil => cases failed
  | cons token rest ih =>
    rw [steps] at failed
    cases step : reading.step? token with
    | none =>
      simp only [step, Except.error.injEq] at failed
      exact ⟨[], token, rest, reading, rfl, rfl, step, failed.symm⟩
    | some next =>
      -- The token is read, and the refused one stands behind it.
      simp only [step] at failed
      obtain ⟨before, found, later, last, rfl, read, refused, same⟩ := ih failed
      refine ⟨token :: before, found, later, last, rfl, ?_, refused, same⟩
      rw [steps, step]
      exact read

/-- The input is not ended within a declaration, and the refused token is the one that ends it. -/
private theorem finish_eq_error {reading : Reading} {file : String} {first stop : Token}
    {refusal : Refusal} (failed : reading.finish file first stop = .error refusal) :
    reading.state ≠ .declaration ∧ refusal = .unexpected reading.state.expected stop := by
  -- Between declarations the end is admitted.
  obtain ⟨constants, functions, state⟩ := reading
  cases state with
  | declaration => cases failed
  | _ =>
    cases failed
    exact ⟨by simp, rfl⟩

end Reading

namespace Grammar

open Reading

/-- Tokens with which a sentence starts, or a whole sentence and the end of the input. -/
def Viable (words : List Token) : Prop :=
  ∃ sentence constants functions, ∃ stop : Token, Declarations sentence constants functions ∧
    stop.kind = .finish ∧ words <+: sentence ++ [stop]

/-- The tokens through the first one that ends the input. -/
def throughEnd (tokens : List Token) : List Token :=
  tokens.take ((sentence tokens).length + 1)

/-- The token at an index is the first with which the tokens from the start are not viable. -/
def BreaksAt (words : List Token) (index : Nat) : Prop :=
  IsLeast {place | place < words.length ∧ ¬ Viable (words.take (place + 1))} index

/-- What has been read is viable. -/
private theorem viable_of_steps {words : List Token} {reading : Reading}
    (read : Reading.start.steps words = .ok reading) : Viable words := by
  -- The declaration being read can be completed, and that makes a sentence.
  obtain ⟨more, constants, functions, completed⟩ := reading.completable
  have declared : Declarations (words ++ more) constants functions := by
    rw [← steps_start_iff, steps_append read]
    exact completed
  exact ⟨words ++ more, constants, functions, sample .finish "", declared, rfl,
    (List.prefix_append words more).trans (List.prefix_append _ _)⟩

/-- No sentence starts with a token that is refused behind the tokens before it. -/
private theorem not_prefix_of_refused {before sentence : List Token} {token : Token}
    {reading : Reading}
    {constants : List (Constant Span)} {functions : List (Function Span)}
    (read : Reading.start.steps before = .ok reading) (refused : reading.step? token = none)
    (declared : Declarations sentence constants functions) :
    ¬ before ++ [token] <+: sentence := by
  -- A sentence is read to its end, through every token of it.
  rintro ⟨more, rfl⟩
  have whole := declared.reads
  rw [List.append_assoc, steps_append read, List.singleton_append, steps, refused] at whole
  cases whole

/-- A token in front of the end that is refused makes the tokens not viable. -/
private theorem not_viable_of_refused {before : List Token} {token : Token} {reading : Reading}
    (read : Reading.start.steps before = .ok reading) (refused : reading.step? token = none)
    (inside : token.kind ≠ .finish) : ¬ Viable (before ++ [token]) := by
  -- A sentence that starts so would have been read further.
  rintro ⟨sentence, constants, functions, stop, declared, ends, front⟩
  rcases List.prefix_concat_iff.mp front with same | shorter
  · -- The token that ends the input is of another kind.
    obtain ⟨-, equal⟩ := List.append_inj' same rfl
    rw [List.cons.injEq] at equal
    exact inside (equal.1 ▸ ends)
  · exact not_prefix_of_refused read refused declared shorter

/-- The end of the input within a declaration makes the tokens not viable. -/
private theorem not_viable_of_unfinished {words : List Token} {stop : Token} {reading : Reading}
    (read : Reading.start.steps words = .ok reading) (ends : stop.kind = .finish)
    (within : reading.state ≠ .declaration) : ¬ Viable (words ++ [stop]) := by
  -- A sentence that starts so has its end here or later.
  rintro ⟨sentence, constants, functions, other, declared, -, front⟩
  rcases List.prefix_concat_iff.mp front with same | shorter
  · -- All of a sentence has been read, so the reading is between declarations.
    obtain ⟨rfl, -⟩ := List.append_inj' same rfl
    rw [declared.reads, Except.ok.injEq] at read
    exact within (by rw [← read])
  · exact not_prefix_of_refused read (reading.step?_of_finish ends) declared shorter

/-- Tokens break off at the one behind a viable front that makes it viable no more. -/
private theorem breaksAt_of_not_viable {before : List Token} {token : Token} (rest : List Token)
    (front : Viable before) (broken : ¬ Viable (before ++ [token])) :
    BreaksAt (before ++ token :: rest) before.length := by
  -- The place is where the front ends, and none before it is one.
  constructor
  · refine ⟨by simp, ?_⟩
    rwa [List.take_length_add_append, List.take_one, List.head?_cons]
  · intro index ⟨_, unviable⟩
    by_contra earlier
    -- Any shorter front is one of the viable front too.
    obtain ⟨sentence, constants, functions, stop, declared, ends, whole⟩ := front
    refine unviable ⟨sentence, constants, functions, stop, declared, ends, ?_⟩
    rw [List.take_append_of_le_length (by omega)]
    exact (List.take_prefix _ _).trans whole

end Grammar

open Grammar in
/-- Tokens that are refused are reported at the first one with which they start no sentence: those
in front of it start one. -/
theorem Program.refused_at_first_unviable_token {file : String} {tokens : List Token}
    {refusal : Refusal} (ended : Ended tokens)
    (failed : Program.read file tokens = .error refusal) :
    ∃ index token, (throughEnd tokens)[index]? = some token ∧
      (refusal.diagnostic file).file = token.span.file ∧
      (refusal.diagnostic file).place = some token.span.start ∧
      BreaksAt (throughEnd tokens) index ∧ Viable ((throughEnd tokens).take index) := by
  -- Tokens up to the first end of the input are a sentence and that end.
  obtain ⟨first, stop, later, -, split, read⟩ := read_of_ended file ended
  have ends : stop.kind = .finish := by
    simpa [Token.isFinish] using List.find?_some (find?_isFinish.mpr ⟨later, split⟩)
  have whole : throughEnd tokens = sentence tokens ++ [stop] := by
    calc throughEnd tokens
        = (sentence tokens ++ stop :: later).take ((sentence tokens).length + 1) := by
          rw [throughEnd, ← split]
      _ = sentence tokens ++ [stop] := by rw [List.take_length_add_append]; rfl
  rw [read] at failed
  cases steps : Reading.start.steps (sentence tokens) with
  | error refused =>
    simp only [steps, Except.bind, Except.error.injEq] at failed
    subst failed
    obtain ⟨before, token, rest, next, parts, front, unread, rfl⟩ := Reading.steps_eq_error steps
    -- No token of the sentence ends the input.
    have inside : token.kind ≠ .finish := by
      have member : token ∈ sentence tokens := by rw [parts]; simp
      simpa using List.mem_takeWhile_imp member
    have breaks := breaksAt_of_not_viable (rest ++ [stop]) (viable_of_steps front)
      (not_viable_of_refused front unread inside)
    rw [whole, parts, List.append_assoc, List.cons_append]
    exact ⟨before.length, token, by simp, rfl, rfl, breaks, by simpa using viable_of_steps front⟩
  | ok reading =>
    simp only [steps, Except.bind] at failed
    -- All tokens of the sentence are admitted, so it is its end that is not.
    obtain ⟨within, rfl⟩ := Reading.finish_eq_error failed
    have breaks := breaksAt_of_not_viable [] (viable_of_steps steps)
      (not_viable_of_unfinished steps ends within)
    rw [whole]
    exact ⟨_, stop, by simp, rfl, rfl, breaks, by simpa using viable_of_steps steps⟩

open Grammar in
/-- A call with a comma too many, in front of the first of two ends of the input. -/
theorem Program.refused_at_parenthesis_behind_comma :
    let words : List (Token.Kind × String) :=
      [(.keyword, "fun"), (.identifier, "f"), (.punctuation, "("), (.punctuation, ")"),
        (.punctuation, "\x7b"), (.keyword, "return"), (.identifier, "f"), (.punctuation, "("),
        (.number, "1"), (.punctuation, ","), (.punctuation, ")"), (.finish, ""), (.finish, "")]
    let tokens : List Token := words.zipIdx.map fun (word, place) =>
      ⟨word.1, word.2, "calls", ⟨1, place + 1, place⟩, ⟨1, place + 2, place + 1⟩⟩
    let refusal : Refusal := .unexpected .expression
      ⟨.punctuation, ")", "calls", ⟨1, 11, 10⟩, ⟨1, 12, 11⟩⟩
    Ended tokens ∧ Program.read "calls" tokens = .error refusal ∧
      ∃ index token, (throughEnd tokens)[index]? = some token ∧
        (refusal.diagnostic "calls").file = token.span.file ∧
        (refusal.diagnostic "calls").place = some token.span.start ∧
        BreaksAt (throughEnd tokens) index ∧ Viable ((throughEnd tokens).take index) := by
  intro words tokens refusal
  have ended : Ended tokens := ended_iff.mpr (by decide)
  have failed : Program.read "calls" tokens = .error refusal := rfl
  exact ⟨ended, failed, Program.refused_at_first_unviable_token ended failed⟩

end DoubleLang
