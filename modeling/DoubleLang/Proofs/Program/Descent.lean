import DoubleLang.Program.Descent

/-!
Descent through the grammar, against reading token by token.

What a rule makes of the front of the tokens is put where the reader would have it, and the reader
goes on with the rest. That comes to the same as letting the reader have all of the tokens: it makes
the same program, or it stops with the same report.
-/

namespace DoubleLang

open Descent

/-- The end of the input is none of the tokens that anything is made of. -/
private theorem Token.plain_of_isFinish {token : Token} (ends : token.isFinish = true) :
    token.isNumber = false ∧ token.isIdentifier = false ∧ (∀ text, token.isMark text = false) ∧
      (∀ text, token.isKeyword text = false) ∧ ∀ ops, Reading.operation? ops token = none := by
  have kind : token.kind = .finish := by simpa [Token.isFinish] using ends
  simp [Token.isNumber, Token.isIdentifier, Token.isMark, Token.isKeyword, Reading.operation?, kind]

namespace Reading

variable (file : String) (first stop : Token)

/-- Reads on up to the end of the input, which stands behind all tokens if not among them. -/
def complete (reading : Reading) : List Token → Except Refusal (Program Span)
  | [] => reading.finish file first stop
  | token :: rest =>
    if token.isFinish then reading.finish file first token
    else
      match reading.step? token with
      | some next => next.complete rest
      | none => .error (.unexpected reading.state.expected token)

/-- Reads on up to the end of the input, over a log. -/
def resume (reading : Reading) (tokens : List Token) : Logged (Program Span) :=
  .ofExcept ((reading.complete file first stop tokens).mapError (·.diagnostic file))

/-- Reads on over a log from a state that is given by what it admits and what it asks for. -/
def resumeBy (reading : Reading) (enter? : Token → Option State) (expected : Expected) :
    List Token → Logged (Program Span)
  | [] => refuse stop expected []
  | token :: rest =>
    match enter? token with
    | some state => (reading.enter state).resume file first stop rest
    | none => refuse stop expected (token :: rest)

/-- The state that follows a whole term: a sum goes on, or the expression is left. -/
def leaveTerm? (body : Body) (level : Level) (term : Expr Span) (token : Token) : Option State :=
  match Reading.operation? [.add, .subtract] token with
  | some op =>
    some (.operand body ⟨some ⟨Waiting.apply level.sum term, op⟩, none, level.purpose⟩)
  | none => leaveExpression? body level.purpose (Waiting.apply level.sum term) token

/-- Reads on over a log behind the arguments of a call, which a parenthesis has to close. -/
def closeCall (reading : Reading) (body : Body) (level : Level) (callee : Token)
    (args : List (Expr Span)) (tokens : List Token) : Logged (Program Span) := do
  let (close, behind) ← expect stop (·.isMark ")") .argumentsClose tokens
  (reading.enter (.afterOperand body level
    (.call (callee.span.join close.span) callee.text args))).resume file first stop behind.val

variable {file first stop}
variable {reading : Reading}

/-- The next token enters a state or is refused. -/
private theorem resumeBy_cons (enter? : Token → Option State) (expected : Expected) (token : Token)
    (rest : List Token) :
    reading.resumeBy file first stop enter? expected (token :: rest) =
      match enter? token with
      | some state => (reading.enter state).resume file first stop rest
      | none => refuse stop expected (token :: rest) :=
  rfl

/-- The end of the input leaves no expression. -/
private theorem leaveExpression?_of_isFinish {token : Token} (ends : token.isFinish = true)
    (body : Body)
    (purpose : Purpose) (whole : Expr Span) : leaveExpression? body purpose whole token = none := by
  obtain ⟨-, -, mark, -⟩ := Token.plain_of_isFinish ends
  cases purpose <;> simp [leaveExpression?, mark]

/-- No state admits the end of the input as a token. -/
private theorem step?_of_isFinish {token : Token} (ends : token.isFinish = true)
    (reading : Reading) :
    reading.step? token = none := by
  -- Every state tests the token for a kind or a text that the end of the input does not have.
  obtain ⟨number, identifier, mark, keyword, operation⟩ := Token.plain_of_isFinish ends
  cases state : reading.state <;>
    simp [step?, state, enterOperand?, leaveOperand?, leaveExpression?_of_isFinish ends, number,
      identifier, mark, keyword, operation]

/-- Within a declaration the input cannot end. -/
private theorem finish_of_inside (inside : reading.state ≠ .declaration) (token : Token) :
    reading.finish file first token = .error (.unexpected reading.state.expected token) := by
  -- The only state in which a program may end is that between declarations.
  unfold finish
  cases state : reading.state with
  | declaration => exact absurd state inside
  | _ => rfl

/-- Within a declaration something is asked for behind all tokens. -/
private theorem resume_nil (inside : reading.state ≠ .declaration) :
    reading.resume file first stop [] = refuse stop reading.state.expected [] := by
  rw [resume, complete, finish_of_inside inside]
  rfl

/-- A token that does not end the input is read or refused. -/
private theorem resume_cons_of_plain {token : Token} (plain : ¬ token.isFinish = true)
    (rest : List Token) :
    reading.resume file first stop (token :: rest) =
      match reading.step? token with
      | some next => next.resume file first stop rest
      | none => refuse stop reading.state.expected (token :: rest) := by
  -- Completion looks at the end of the input first, and this token is not it.
  unfold resume
  rw [complete, if_neg plain]
  cases reading.step? token with
  | none => rfl
  | some next => rfl

/-- Within a declaration the next token is read or refused. -/
private theorem resume_cons (inside : reading.state ≠ .declaration) (token : Token)
    (rest : List Token) :
    reading.resume file first stop (token :: rest) =
      match reading.step? token with
      | some next => next.resume file first stop rest
      | none => refuse stop reading.state.expected (token :: rest) := by
  -- The end of the input is no exception: no state within a declaration admits it.
  by_cases ends : token.isFinish
  · rw [resume, complete, if_pos ends, finish_of_inside inside, step?_of_isFinish ends]
    rfl
  · exact resume_cons_of_plain ends rest

/-- A state within a declaration is given by what it admits and what it asks for. -/
private theorem resume_enter {state : State} {enter? : Token → Option State} (tokens : List Token)
    (inside : state ≠ .declaration)
    (admits : ∀ token, (reading.enter state).step? token = (enter? token).map reading.enter) :
    (reading.enter state).resume file first stop tokens =
      reading.resumeBy file first stop enter? state.expected tokens := by
  -- Both sides look at the next token, and refuse when there is none.
  cases tokens with
  | nil => exact resume_nil inside
  | cons token rest =>
    rw [resume_cons inside, admits, resumeBy_cons]
    cases enter? token with
    | none => rfl
    | some next => rfl

/-- An operand is entered with its first token. -/
private theorem resume_operand (body : Body) (level : Level) (tokens : List Token) :
    (reading.enter (.operand body level)).resume file first stop tokens =
      reading.resumeBy file first stop (enterOperand? body level) .expression tokens :=
  resume_enter tokens (by simp) fun _ => rfl

/-- An operand is left by an operation or with its expression. -/
private theorem resume_afterOperand (body : Body) (level : Level) (operand : Expr Span)
    (tokens : List Token) :
    (reading.enter (.afterOperand body level operand)).resume file first stop tokens =
      reading.resumeBy file first stop (leaveOperand? body level operand) level.purpose.close
        tokens :=
  resume_enter tokens (by simp) fun _ => rfl

/-- A name is a call if a parenthesis follows it, and else an operand. -/
private theorem resume_afterName (body : Body) (level : Level) (name : Token)
    (tokens : List Token) :
    (reading.enter (.afterName body level name)).resume file first stop tokens =
      match passed? "(" tokens with
      | some inside =>
        (reading.enter (.firstArgument body level name)).resume file first stop inside.val
      | none =>
        (reading.enter (.afterOperand body level (.name name.span name.text))).resume
          file first stop tokens := by
  -- The parenthesis is looked for before the name counts as an operand.
  cases tokens with
  | nil => rfl
  | cons token rest =>
    rw [resume_cons (by simp [enter]), resume_afterOperand, resumeBy_cons]
    by_cases opens : token.isMark "("
    · simp [step?, enter, passed?, opens]
    · -- Any other token is judged as behind the operand that the name is.
      simp only [step?, enter, passed?, opens]
      cases leaveOperand? body level (.name name.span name.text) token with
      | none => rfl
      | some state => rfl

/-- Behind the opening of a call there is its end, or its first argument. -/
private theorem resume_firstArgument (body : Body) (level : Level) (callee : Token)
    (tokens : List Token) :
    (reading.enter (.firstArgument body level callee)).resume file first stop tokens =
      match tokens with
      | [] => refuse stop .expression []
      | token :: rest =>
        if token.isMark ")" then
          (reading.enter (.afterOperand body level
            (.call (callee.span.join token.span) callee.text []))).resume file first stop rest
        else
          (reading.enter (.operand body (.fresh
            (.argument callee [] level.sum level.product level.purpose)))).resume
              file first stop (token :: rest) := by
  -- The closing parenthesis is looked for before an argument is asked for.
  cases tokens with
  | nil => rfl
  | cons token rest =>
    simp only [resume_operand, resumeBy_cons]
    rw [resume_cons (by simp [enter])]
    by_cases closes : token.isMark ")"
    · simp [step?, enter, closes]
    · -- Any other token has to start an operand.
      simp only [step?, enter, closes]
      cases enterOperand? body _ token with
      | none => rfl
      | some state => rfl

/-- A product that waits is done when its right operand is there. -/
private theorem leaveOperand?_waiting (body : Body) (level : Level) (op : BinaryOp)
    (left right : Expr Span) :
    leaveOperand? body { level with product := some ⟨left, op⟩ } right =
      leaveOperand? body { level with product := none }
        (.binary (left.note.join right.note) op left right) :=
  rfl

/-- Behind a factor stands an operation of a product, or its term is whole. -/
private theorem leaveOperand?_eq (body : Body) (level : Level) (last : Expr Span) (token : Token) :
    leaveOperand? body { level with product := none } last token =
      match Reading.operation? [.multiply, .divide] token with
      | some op => some (.operand body { level with product := some ⟨last, op⟩ })
      | none => leaveTerm? body level last token :=
  rfl

/-- A token that is expected enters a state with it. -/
private theorem expect_resume (fits : Token → Bool) (expected : Expected) (enter : Token → State)
    (tokens : List Token) :
    (expect stop fits expected tokens >>= fun found =>
      (reading.enter (enter found.1)).resume file first stop found.2.val) =
      reading.resumeBy file first stop
        (fun token => if fits token then some (enter token) else none) expected tokens := by
  -- The token is there and fits, or what was expected is refused.
  cases tokens with
  | nil => rfl
  | cons token rest =>
    by_cases fit : fits token
    · simp [expect, resumeBy, fit]
    · simp [expect, resumeBy, fit, refuse]

mutual

/-- A factor is an operand. -/
private theorem factor_resume (body : Body) (level : Level) (tokens : List Token) :
    (factor stop tokens >>= fun made =>
      (reading.enter (.afterOperand body level made.1)).resume file first stop made.2.val) =
      (reading.enter (.operand body level)).resume file first stop tokens := by
  -- The cases are those of the descent: a number, a name or a call, and a group.
  rw [resume_operand]
  cases tokens with
  | nil =>
    rw [factor]
    rfl
  | cons token rest =>
    rw [factor]
    simp only [resumeBy_cons, enterOperand?]
    by_cases number : token.isNumber
    · simp [number]
    rw [if_neg number, if_neg number]
    -- A name may stand alone or open a call, which the next token decides.
    by_cases identifier : token.isIdentifier
    · rw [if_pos identifier, if_pos identifier]
      simp only [resume_afterName]
      cases passed? "(" rest with
      | none => simp
      | some inside =>
        simp only [bind_assoc, pure_bind]
        exact arguments_resume body level token inside.val
    rw [if_neg identifier, if_neg identifier]
    by_cases opens : token.isMark "("
    · rw [if_pos opens, if_pos opens]
      simp only [bind_assoc, pure_bind]
      rw [← expr_resume]
      -- The parenthesis that closes the group is the one that leaves the expression in it.
      refine bind_congr fun made => ?_
      exact expect_resume (·.isMark ")") .groupClose (fun close =>
        .afterOperand body level (.group (token.span.join close.span) made.1)) made.2.val
    · simp [opens, refuse]
termination_by (tokens.length, 0)

/-- The arguments of a call are read from behind its parenthesis up to the one that closes it. -/
private theorem arguments_resume (body : Body) (level : Level) (callee : Token)
    (tokens : List Token) :
    (arguments stop tokens >>= fun made =>
      reading.closeCall file first stop body level callee made.1 made.2.val) =
      (reading.enter (.firstArgument body level callee)).resume file first stop tokens := by
  -- A call without arguments is closed at once; else there is one argument at least.
  rw [arguments, resume_firstArgument]
  cases tokens with
  | nil =>
    refine (someArguments_resume body level callee [] []).trans ?_
    rw [resume_operand]
    rfl
  | cons token rest =>
    by_cases closes : token.isMark ")"
    · simp [passed?, closes, closeCall, expect]
    · simp only [passed?, closes]
      exact someArguments_resume body level callee [] (token :: rest)
termination_by (tokens.length, 6)

/-- One argument and those behind commas are read where an argument is asked for. -/
private theorem someArguments_resume (body : Body) (level : Level) (callee : Token)
    (earlier : List (Expr Span)) (tokens : List Token) :
    (someArguments stop earlier tokens >>= fun made =>
      reading.closeCall file first stop body level callee made.1 made.2.val) =
      (reading.enter (.operand body (.fresh
        (.argument callee earlier level.sum level.product level.purpose)))).resume
          file first stop tokens := by
  -- Behind an argument a comma leads to another, and a parenthesis closes the call.
  rw [someArguments, ← expr_resume]
  simp only [bind_assoc]
  refine bind_congr fun made => ?_
  obtain ⟨arg, behind, shorter⟩ := made
  cases behind with
  | nil => rfl
  | cons token rest =>
    by_cases comma : token.isMark ","
    · -- The arguments behind the comma have fewer tokens, as the recursion asks for.
      have fewer : rest.length < tokens.length := by
        rw [List.length_cons] at shorter
        omega
      simp only [passed?, comma, if_true, resumeBy_cons, leaveExpression?, bind_assoc, pure_bind]
      exact someArguments_resume body level callee (earlier ++ [arg]) rest
    · -- Neither mark is there: both sides refuse what they have in hand.
      by_cases closes : token.isMark ")"
      · simp [passed?, comma, closes, closeCall, expect, resumeBy_cons, leaveExpression?]
      · simp [passed?, comma, closes, closeCall, expect, refuse, resumeBy_cons, leaveExpression?,
          Purpose.close]
termination_by (tokens.length, 5)

/-- An expression is read for its purpose, and what follows it leaves it. -/
private theorem expr_resume (body : Body) (purpose : Purpose) (tokens : List Token) :
    (binary stop .sum tokens >>= fun made =>
      reading.resumeBy file first stop (leaveExpression? body purpose made.1) purpose.close
        made.2.val) =
      (reading.enter (.operand body (.fresh purpose))).resume file first stop tokens := by
  -- A sum is a term and what its signs join to it.
  rw [binary, operand]
  simp only [bind_assoc, pure_bind]
  rw [show Level.fresh purpose = { Level.fresh purpose with product := none } from rfl,
    ← term_resume]
  refine bind_congr fun made => ?_
  obtain ⟨left, behind, shorter⟩ := made
  exact sums_resume body purpose left behind
termination_by (tokens.length, 4)

/-- Behind a term the sum goes on for as long as there are signs of its tier. -/
private theorem sums_resume (body : Body) (purpose : Purpose) (left : Expr Span)
    (tokens : List Token) :
    (operations stop .sum left tokens >>= fun made =>
      reading.resumeBy file first stop (leaveExpression? body purpose made.1) purpose.close
        made.2.val) =
      reading.resumeBy file first stop (leaveTerm? body (.fresh purpose) left) purpose.close
        tokens := by
  -- A sign of the tier takes another term, and the sum so far waits on its left.
  rw [operations]
  cases tokens with
  | nil => rfl
  | cons token rest =>
    simp only [Descent.operation?, Tier.ops, resumeBy_cons, leaveTerm?]
    cases Reading.operation? [.add, .subtract] token with
    | none => rfl
    | some op =>
      simp only [Option.map_some, bind_assoc, pure_bind]
      rw [operand]
      -- The term is read while the sum so far waits for it.
      refine Eq.trans ?_ (term_resume body ⟨some ⟨left, op⟩, none, purpose⟩ rest)
      refine bind_congr fun made => ?_
      obtain ⟨right, behind, shorter⟩ := made
      exact sums_resume body purpose (.binary (left.note.join right.note) op left right) behind
termination_by (tokens.length, 0)

/-- A term is read at its level, and what follows it leaves it. -/
private theorem term_resume (body : Body) (level : Level) (tokens : List Token) :
    (binary stop .product tokens >>= fun made =>
      reading.resumeBy file first stop (leaveTerm? body level made.1) level.purpose.close
        made.2.val) =
      (reading.enter (.operand body { level with product := none })).resume
        file first stop tokens := by
  -- A product is a factor and what its signs join to it.
  rw [binary, operand]
  simp only [bind_assoc, pure_bind]
  rw [← factor_resume]
  refine bind_congr fun made => ?_
  obtain ⟨left, behind, shorter⟩ := made
  rw [resume_afterOperand]
  exact products_resume body level left behind
termination_by (tokens.length, 2)

/-- Behind a factor the product goes on for as long as there are signs of its tier. -/
private theorem products_resume (body : Body) (level : Level) (left : Expr Span)
    (tokens : List Token) :
    (operations stop .product left tokens >>= fun made =>
      reading.resumeBy file first stop (leaveTerm? body level made.1) level.purpose.close
        made.2.val) =
      reading.resumeBy file first stop (leaveOperand? body { level with product := none } left)
        level.purpose.close tokens := by
  -- A sign of the tier takes another factor, and the product so far waits on its left.
  rw [operations]
  cases tokens with
  | nil => rfl
  | cons token rest =>
    simp only [Descent.operation?, Tier.ops, resumeBy_cons, leaveOperand?_eq]
    cases Reading.operation? [.multiply, .divide] token with
    | none => rfl
    | some op =>
      simp only [Option.map_some, bind_assoc, pure_bind]
      rw [operand, ← factor_resume]
      refine bind_congr fun made => ?_
      obtain ⟨right, behind, shorter⟩ := made
      -- Behind the factor the waiting product takes it in.
      rw [resume_afterOperand, leaveOperand?_waiting]
      exact products_resume body level (.binary (left.note.join right.note) op left right) behind
termination_by (tokens.length, 0)

end

/-- A token that is expected is the one that the reader goes on with. -/
private theorem resume_expect (fits : Token → Bool) (next : Token → Reading) (tokens : List Token)
    (inside : reading.state ≠ .declaration)
    (admits : ∀ token, reading.step? token = if fits token then some (next token) else none) :
    reading.resume file first stop tokens =
      expect stop fits reading.state.expected tokens >>= fun found =>
        (next found.1).resume file first stop found.2.val := by
  -- What the state admits is exactly the token that is expected.
  cases tokens with
  | nil => exact resume_nil inside
  | cons token rest =>
    rw [resume_cons inside, admits, expect]
    by_cases fit : fits token
    · simp [fit]
    · simp [fit, refuse]

/-- A statement goes to the end of a body. -/
private theorem statement_resume (body : Body) (token : Token) (rest : List Token)
    (unclosed : ¬ token.isMark "\x7d" = true) :
    (statement stop (token :: rest) >>= fun made =>
      (reading.enter (.statement (body.push made.1))).resume file first stop made.2.val) =
      (reading.enter (.statement body)).resume file first stop (token :: rest) := by
  -- A brace is not in hand, so the statement is a return or an assignment or is refused.
  rw [statement, resume_cons (by simp [enter])]
  simp only [step?, enter, unclosed]
  by_cases returns : token.isKeyword "return"
  · rw [if_pos returns, if_pos returns]
    simp only [bind_assoc, pure_bind]
    refine Eq.trans ?_ (expr_resume body (.returned token) rest)
    refine bind_congr fun made => ?_
    exact expect_resume (·.isMark ";") .returnEnd (fun close =>
      .statement (body.push (.returns (token.span.join close.span) made.1))) made.2.val
  rw [if_neg returns, if_neg returns]
  -- An assignment has its equals sign in front of the expression.
  by_cases identifier : token.isIdentifier
  · rw [if_pos identifier, if_pos identifier]
    simp only [bind_assoc, pure_bind]
    refine Eq.trans ?_ (resume_expect (·.isMark "=")
      (fun _ => reading.enter (.operand body (.fresh (.assigned token)))) rest (by simp)
      fun _ => rfl).symm
    refine bind_congr fun found => ?_
    refine Eq.trans ?_ (expr_resume body (.assigned token) found.2.val)
    refine bind_congr fun made => ?_
    exact expect_resume (·.isMark ";") .assignmentEnd (fun close =>
      .statement (body.push (.assign (token.span.join close.span) token.text made.1))) made.2.val
  · simp [identifier, refuse, State.expected]

/-- Statements go to the end of a body, and a brace completes its function. -/
private theorem statements_resume (head : Head) (earlier : List (Statement Span))
    (tokens : List Token) :
    (statements stop earlier tokens >>= fun made =>
      (reading.pushFunction ((⟨head, made.1⟩ : Body).function made.2.1)).resume file first stop
        made.2.2.val) =
      (reading.enter (.statement ⟨head, earlier⟩)).resume file first stop tokens := by
  -- The brace ends the body; any other token has to start a statement.
  cases tokens with
  | nil =>
    rw [statements]
    rfl
  | cons token rest =>
    rw [statements]
    by_cases closes : token.isMark "\x7d"
    · rw [resume_cons (by simp [enter])]
      simp [step?, enter, closes, pushFunction]
    · -- The rest of the body follows the statement, which took at least one token.
      rw [if_neg closes, ← statement_resume _ _ _ closes]
      simp only [bind_assoc, pure_bind]
      refine bind_congr fun made => ?_
      obtain ⟨next, behind, shorter⟩ := made
      exact statements_resume head (earlier ++ [next]) behind
termination_by tokens.length
decreasing_by exact shorter

/-- Parameters go to the end of a head, which a parenthesis closes. -/
private theorem someParameters_resume (head : Head) (tokens : List Token) :
    (someParameters stop head.params tokens >>= fun made =>
      expect stop (·.isMark ")") .parametersClose made.2.val >>= fun found =>
        (reading.enter (.bodyOpen { head with params := made.1 })).resume file first stop
          found.2.val) =
      (reading.enter (.nextParameter head)).resume file first stop tokens := by
  -- Behind a parameter a comma leads to another, and a parenthesis closes the list.
  rw [someParameters, resume_expect Token.isIdentifier
    (fun name => reading.enter (.afterParameter (head.push name))) tokens (by simp [enter])
    fun _ => rfl]
  simp only [bind_assoc]
  refine bind_congr fun found => ?_
  obtain ⟨name, behind, shorter⟩ := found
  cases behind with
  | nil => rfl
  | cons token rest =>
    rw [resume_cons (by simp [enter])]
    by_cases comma : token.isMark ","
    · -- The parameters behind the comma have fewer tokens, as the recursion asks for.
      have fewer : rest.length < tokens.length := by
        rw [List.length_cons] at shorter
        omega
      simp only [passed?, comma, if_true, step?, enter, bind_assoc, pure_bind]
      exact someParameters_resume (head.push name) rest
    · by_cases closes : token.isMark ")"
      · simp [passed?, comma, closes, expect, step?, enter, Head.push]
      · simp [passed?, comma, closes, expect, refuse, step?, enter, State.expected]
termination_by tokens.length

/-- The parameters of a function go to its head, which a parenthesis closes. -/
private theorem parameters_resume (keyword name : Token) (tokens : List Token) :
    (parameters stop tokens >>= fun made =>
      expect stop (·.isMark ")") .parametersClose made.2.val >>= fun found =>
        (reading.enter (.bodyOpen ⟨keyword, name, made.1⟩)).resume file first stop
          found.2.val) =
      (reading.enter (.firstParameter ⟨keyword, name, []⟩)).resume file first stop tokens := by
  -- An empty list is closed at once.
  rw [parameters]
  cases tokens with
  | nil => exact someParameters_resume ⟨keyword, name, []⟩ []
  | cons token rest =>
    by_cases closes : token.isMark ")"
    · rw [resume_cons (by simp [enter])]
      simp [passed?, closes, expect, step?, enter]
    · -- Where the list does not end at once, a parameter is asked for as behind a comma.
      simp only [passed?, closes]
      refine (someParameters_resume ⟨keyword, name, []⟩ (token :: rest)).trans ?_
      rw [resume_cons (by simp [enter]), resume_cons (by simp [enter])]
      simp [step?, enter, closes, State.expected]

/-- A function is read behind its keyword. -/
private theorem function_resume (keyword : Token) (tokens : List Token) :
    (function stop keyword tokens >>= fun made =>
      (reading.pushFunction made.1).resume file first stop made.2.val) =
      (reading.enter (.functionName keyword)).resume file first stop tokens := by
  -- The tokens of a head are expected one after the other, up to the brace that opens the body.
  rw [function, resume_expect Token.isIdentifier
    (fun name => reading.enter (.parametersOpen keyword name)) tokens (by simp [enter])
    fun _ => rfl]
  simp only [bind_assoc, pure_bind]
  refine bind_congr fun name => ?_
  rw [resume_expect (·.isMark "(")
    (fun _ => reading.enter (.firstParameter ⟨keyword, name.1, []⟩)) name.2.val (by simp [enter])
    fun _ => rfl]
  refine bind_congr fun opening => ?_
  -- Parameters and statements are loops of their own, each met at the state it starts from.
  rw [← parameters_resume]
  refine bind_congr fun params => ?_
  refine bind_congr fun closing => ?_
  rw [resume_expect (·.isMark "\x7b")
    (fun _ => reading.enter (.statement ⟨⟨keyword, name.1, params.1⟩, []⟩)) closing.2.val
    (by simp [enter]) fun _ => rfl]
  refine bind_congr fun brace => ?_
  exact statements_resume ⟨keyword, name.1, params.1⟩ [] brace.2.val

/-- A constant is read behind its name. -/
private theorem constant_resume (name : Token) (tokens : List Token) :
    (constant stop name tokens >>= fun made =>
      (reading.pushConstant made.1).resume file first stop made.2.val) =
      (reading.enter (.constantEquals name)).resume file first stop tokens := by
  -- Three tokens are expected one after the other.
  rw [constant, resume_expect (·.isMark "=") (fun _ => reading.enter (.constantValue name)) tokens
    (by simp [enter]) fun _ => rfl]
  simp only [bind_assoc, pure_bind]
  refine bind_congr fun equals => ?_
  rw [resume_expect Token.isNumber (fun value => reading.enter (.constantEnd name value))
    equals.2.val (by simp [enter]) fun _ => rfl]
  refine bind_congr fun value => ?_
  rw [resume_expect (·.isMark ";") (fun close => reading.pushConstant
    ⟨name.span.join close.span, name.text, value.1.text⟩) value.2.val (by simp [enter])
    fun _ => rfl]
  rfl

/-- Declarations go to the end of a program, which the end of the input completes. -/
private theorem declarations_resume (constants : List (Constant Span))
    (functions : List (Function Span))
    (tokens : List Token) :
    declarations stop file first constants functions tokens =
      (⟨constants, functions, .declaration⟩ : Reading).resume file first stop tokens := by
  -- The end of the input completes the program; a keyword or a name starts a declaration.
  cases tokens with
  | nil =>
    rw [declarations]
    rfl
  | cons token rest =>
    rw [declarations]
    by_cases ends : token.isFinish
    · have done : (⟨constants, functions, .declaration⟩ : Reading).complete file first stop
          (token :: rest) =
            .ok ⟨first.span.join token.span, file, constants, functions⟩ := by
        simp [complete, ends, finish]
      rw [if_pos ends, resume, done]
      rfl
    rw [if_neg ends, resume_cons_of_plain ends]
    -- A declaration takes at least one token, and the others follow it.
    by_cases keyword : token.isKeyword "fun"
    · simp only [keyword, if_true, step?]
      rw [← function_resume]
      refine bind_congr fun made => ?_
      obtain ⟨next, behind, shorter⟩ := made
      exact declarations_resume constants (functions ++ [next]) behind
    by_cases identifier : token.isIdentifier
    · simp only [step?]
      rw [if_neg keyword, if_neg keyword, if_pos identifier, if_pos identifier]
      simp only
      rw [← constant_resume]
      refine bind_congr fun made => ?_
      obtain ⟨next, behind, shorter⟩ := made
      exact declarations_resume (constants ++ [next]) functions behind
    · simp [step?, keyword, identifier, State.expected]
termination_by tokens.length

/-- Reading on is reading up to the first end of the input, and ending there. -/
private theorem complete_eq {tokens : List Token} {found : Token}
    (ends : tokens.find? Token.isFinish = some found) (reading : Reading) :
    reading.complete file first stop tokens =
      (reading.steps (tokens.takeWhile (! ·.isFinish)) >>= fun last =>
        last.finish file first found) := by
  -- The tokens before the end are steps, and the end finishes the reading behind them.
  induction tokens generalizing reading with
  | nil => cases ends
  | cons token rest ih =>
    rw [complete]
    by_cases finish : token.isFinish
    · rw [List.find?_cons_of_pos finish, Option.some.injEq] at ends
      rw [if_pos finish, List.takeWhile_cons_of_neg (by simpa using finish), steps, ends]
      rfl
    · rw [List.find?_cons_of_neg finish] at ends
      rw [if_neg finish, List.takeWhile_cons_of_pos (by simpa using finish), steps]
      -- Both stop at the first token that cannot be read.
      cases reading.step? token with
      | none => rfl
      | some next => exact ih ends next

end Reading

/-- Descent through the grammar makes the program that is read token by token, or adds the report of
the token at which that reading stops. -/
theorem Program.readInto_eq (file : String) (tokens : List Token) :
    Program.readInto file tokens =
      .ofExcept ((Program.read file tokens).mapError (·.diagnostic file)) := by
  -- Reading goes by the last token: tokens that do not close with an end are refused as a whole.
  unfold Program.readInto Program.read
  cases tokens with
  | nil => rfl
  | cons token rest =>
    obtain ⟨last, closes⟩ : ∃ last, (token :: rest).getLast? = some last := by
      exact ⟨_, List.getLast?_cons⟩
    simp only [closes, Option.map_some, Option.getD_some]
    by_cases ends : last.isFinish
    · -- Some token ends the input, the last one if no other.
      obtain ⟨found, stops⟩ : ∃ found, (token :: rest).find? Token.isFinish = some found := by
        rw [← Option.isSome_iff_exists, List.find?_isSome]
        exact ⟨last, List.mem_of_getLast? closes, ends⟩
      simp only [ends, if_true, stops]
      rw [Reading.declarations_resume, Reading.resume, Reading.complete_eq stops]
      rfl
    · simp only [ends]
      cases (token :: rest).find? Token.isFinish with
      | none => rfl
      | some found => rfl

end DoubleLang
