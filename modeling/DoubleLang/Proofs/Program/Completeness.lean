import DoubleLang.Proofs.Program.Grammar

/-! Every sentence of the grammar is read, token by token, and leaves its tree behind. -/

namespace DoubleLang

namespace Reading

/-- Reading goes on behind the tokens that have been read. -/
theorem steps_append {reading next : Reading} {words : List Token}
    (read : reading.steps words = .ok next) (more : List Token) :
    reading.steps (words ++ more) = next.steps more := by
  -- A step that is refused ends the reading, so every step of the front succeeds.
  induction words generalizing reading with
  | nil =>
    simp only [steps, Except.ok.injEq] at read
    rw [List.nil_append, read]
  | cons token rest ih =>
    simp only [steps, List.cons_append] at read ⊢
    split at read
    · exact ih read
    · cases read

/-- One token more is read by one step more. -/
private theorem steps_concat {reading next last : Reading} {words : List Token} {token : Token}
    (read : reading.steps words = .ok next) (step : next.step? token = some last) :
    reading.steps (words ++ [token]) = .ok last := by
  rw [steps_append read, steps, step]
  rfl

/-- What has been declared stays the same while a state is entered. -/
@[simp] theorem enter_enter (reading : Reading) (first second : State) :
    (reading.enter first).enter second = reading.enter second := rfl

/-- Entering a state is to be in it. -/
@[simp] theorem enter_state (reading : Reading) (state : State) :
    (reading.enter state).state = state := rfl

/-- A state in which an operand has just been read; a name alone may still become a call. -/
def State.Holds (body : Body) (level : Level) (last : Expr Span) (state : State) : Prop :=
  state = .afterOperand body level last ∨
    ∃ name : Token, state = .afterName body level name ∧ last = .name name.span name.text

/-- Behind an operand every token but an opening parenthesis is read in the same way. -/
private theorem step?_of_holds {reading : Reading} {body : Body} {level : Level} {last : Expr Span}
    {state : State} {token : Token} (held : state.Holds body level last)
    (closed : token.isMark "(" = false) :
    (reading.enter state).step? token =
      (leaveOperand? body level last token).map reading.enter := by
  -- Only an opening parenthesis would make a name the start of a call.
  rcases held with rfl | ⟨name, rfl, rfl⟩
  · rfl
  · simp only [step?, enter_state, closed, Bool.false_eq_true, if_false]
    rfl

/-- An identifier is of no other kind. -/
private theorem kinds_of_isIdentifier {token : Token} (named : token.isIdentifier = true) :
    token.isNumber = false ∧ (∀ text, token.isMark text = false) ∧
      ∀ text, token.isKeyword text = false := by
  -- A token has one kind.
  simp only [Token.isIdentifier, beq_iff_eq] at named
  simp [Token.isNumber, Token.isMark, Token.isKeyword, named]

/-- A mark is no mark of another text. -/
private theorem isMark_false_of_ne {token : Token} {text other : String}
    (mark : token.isMark text = true)
    (differ : text ≠ other) : token.isMark other = false := by
  -- A mark has one text.
  simp only [Token.isMark, Bool.and_eq_true, beq_iff_eq] at mark
  simp [Token.isMark, mark.1, mark.2, differ]

/-- A mark stands for no operation. -/
private theorem operation?_of_isMark {token : Token} {text : String}
    (mark : token.isMark text = true)
    (ops : List BinaryOp) : operation? ops token = none := by
  -- Operations are signs, and a mark is of another kind.
  simp only [Token.isMark, Bool.and_eq_true, beq_iff_eq] at mark
  simp [operation?, mark.1]

/-- A mark behind an operand leaves the expression. -/
private theorem leaveOperand?_of_isMark {token : Token} {text : String}
    (mark : token.isMark text = true)
    (body : Body) (level : Level) (last : Expr Span) :
    leaveOperand? body level last token =
      leaveExpression? body level.purpose (level.whole last) token := by
  -- Neither level has an operation for the token.
  simp [leaveOperand?, operation?_of_isMark mark]

/-- A sign is an operation of its own level only, and opens nothing. -/
private theorem operation?_of_isSign {token : Token} {op : BinaryOp}
    (signed : Grammar.IsSign token op)
    {ops : List BinaryOp} : operation? ops token = if op ∈ ops then some op else none := by
  -- Symbols tell operations apart.
  obtain ⟨kind, text⟩ := signed
  have symbols : ∀ other : BinaryOp, (other.symbol == op.symbol) = decide (other = op) := by
    intro other
    cases other <;> cases op <;> decide
  simp only [operation?, kind, text, symbols, beq_self_eq_true, if_true]
  -- The operation is found at its first place in the list, if it has one.
  induction ops with
  | nil => rfl
  | cons first rest ih =>
    by_cases same : first = op
    · simp [same]
    · simp [same, ih, Ne.symm same]

/-- A sign is no mark. -/
private theorem isMark_of_isSign {token : Token} {op : BinaryOp} (signed : Grammar.IsSign token op)
    (text : String) : token.isMark text = false := by
  simp [Token.isMark, signed.1]

/-- The first argument of a call is read like any operand, once it has a token. -/
private theorem steps_firstArgument {reading next : Reading} {body : Body} {level : Level}
    {callee : Token}
    {words : List Token}
    (read : (reading.enter (.operand body (.fresh
      (.argument callee [] level.sum level.product level.purpose)))).steps words = .ok next)
    (filled : words ≠ []) :
    (reading.enter (.firstArgument body level callee)).steps words = .ok next := by
  -- The two states differ only for a parenthesis that closes.
  cases words with
  | nil => exact absurd rfl filled
  | cons token rest =>
    -- A token that starts an operand is not the parenthesis that closes an empty call.
    cases mark : token.isMark ")" with
    | true =>
      have kind : token.kind = .punctuation ∧ token.text = ")" := by
        simpa [Token.isMark] using mark
      simp [steps, step?, enter, enterOperand?, Token.isNumber, Token.isIdentifier, Token.isMark,
        kind.1, kind.2] at read
    | false =>
      have same : (reading.enter (.firstArgument body level callee)).step? token =
          (reading.enter (.operand body (.fresh
            (.argument callee [] level.sum level.product level.purpose)))).step? token := by
        simp only [step?, enter_state, mark, Bool.false_eq_true, if_false]
        rfl
      rw [steps] at read ⊢
      rw [same]
      split at read
      · exact read
      · cases read

end Reading

namespace Grammar

open Reading

mutual

/-- A factor is read as an operand. -/
theorem Factor.reads {words : List Token} {expr : Expr Span} :
    Factor words expr → ∀ (reading : Reading) (body : Body) (level : Level),
      ∃ state : State, state.Holds body level expr ∧
        (reading.enter (.operand body level)).steps words = .ok (reading.enter state)
  | .number read, reading, body, level => by
    exact ⟨_, .inl rfl, by simp [steps, step?, enter, enterOperand?, read]⟩
  | @Factor.name token read, reading, body, level => by
    -- A name alone is held back, for a parenthesis may make it a call.
    have word := (kinds_of_isIdentifier read).1
    exact ⟨_, .inr ⟨token, rfl, rfl⟩, by simp [steps, step?, enter, enterOperand?, read, word]⟩
  | @Factor.callEmpty callee _ _ named opens closes, reading, body, level => by
    have word := (kinds_of_isIdentifier named).1
    exact ⟨_, .inl rfl,
      by simp [steps, step?, enter, enterOperand?, named, word, opens, closes]⟩
  | @Factor.call callee opening closing words _ named opens inside closes, reading, body,
    level => by
    have word := (kinds_of_isIdentifier named).1
    obtain ⟨inner, last, state, earlier, rfl, purpose, held, read⟩ :=
      inside.reads reading body level callee
    have opened : (reading.enter (.operand body level)).steps [callee, opening] =
        .ok (reading.enter (.firstArgument body level callee)) := by
      simp [steps, step?, enter, enterOperand?, named, word, opens]
    -- The parenthesis closes the level of the arguments and the call with it.
    have left : (reading.enter state).step? closing =
        some (reading.enter (.afterOperand body level (.call (callee.span.join closing.span)
          callee.text (earlier ++ [inner.whole last])))) := by
      rw [step?_of_holds held (isMark_false_of_ne closes (by decide)),
        leaveOperand?_of_isMark closes, purpose]
      simp [leaveExpression?, closes, isMark_false_of_ne closes (show ")" ≠ "," by decide)]
    refine ⟨_, .inl rfl, ?_⟩
    have split := steps_append opened (words ++ [closing])
    simp only [List.cons_append, List.nil_append] at split
    rw [split]
    exact steps_concat read left
  | @Factor.group opening closing _ _ opens inside closes, reading, body, level => by
    obtain ⟨inner, last, state, purpose, rfl, held, read⟩ :=
      inside.reads reading body (.grouped opening level.sum level.product level.purpose)
    -- A parenthesis is no operand itself.
    have other : opening.isNumber = false ∧ opening.isIdentifier = false := by
      simp only [Token.isMark, Bool.and_eq_true, beq_iff_eq] at opens
      simp [Token.isNumber, Token.isIdentifier, opens.1]
    -- The name and the parenthesis behind it open a call.
    have opened : (reading.enter (.operand body level)).step? opening =
        some (reading.enter (.operand body
          (.fresh (.grouped opening level.sum level.product level.purpose)))) := by
      simp [step?, enter, enterOperand?, other.1, other.2, opens]
    -- The level outside comes back with the group as its operand.
    have left : (reading.enter state).step? closing =
        some (reading.enter (.afterOperand body level
          (.group (opening.span.join closing.span) (inner.whole last)))) := by
      rw [step?_of_holds held (isMark_false_of_ne closes (by decide)),
        leaveOperand?_of_isMark closes, purpose]
      simp [leaveExpression?, closes]
    refine ⟨_, .inl rfl, ?_⟩
    rw [steps, opened]
    exact steps_concat read left

/-- A term is read up to its last factor, with the product before it waiting. -/
theorem Term.reads {words : List Token} {expr : Expr Span} :
    Term words expr → ∀ (reading : Reading) (body : Body) (sum : Option Waiting)
      (purpose : Purpose),
      ∃ product last state, State.Holds body ⟨sum, product, purpose⟩ last state ∧
        Waiting.apply product last = expr ∧
        (reading.enter (.operand body ⟨sum, none, purpose⟩)).steps words =
          .ok (reading.enter state)
  | .factor only, reading, body, sum, purpose => by
    obtain ⟨state, held, read⟩ := only.reads reading body ⟨sum, none, purpose⟩
    exact ⟨none, _, state, held, rfl, read⟩
  | @Term.operation _ _ _ right sign op first signed tight last, reading, body, sum, purpose => by
    obtain ⟨product, operand, state, held, rfl, read⟩ := first.reads reading body sum purpose
    obtain ⟨next, nextHeld, nextRead⟩ := last.reads reading body
      ⟨sum, some ⟨Waiting.apply product operand, op⟩, purpose⟩
    -- The sign sends the term before it to wait, and the next factor completes the operation.
    have signRead : (reading.enter state).step? sign =
        some (reading.enter (.operand body
          ⟨sum, some ⟨Waiting.apply product operand, op⟩, purpose⟩)) := by
      rw [step?_of_holds held (isMark_of_isSign signed _)]
      simp [leaveOperand?, operation?_of_isSign signed, tight]
    refine ⟨_, right, next, nextHeld, rfl, ?_⟩
    rw [steps_append read, steps, signRead]
    exact nextRead

/-- An expression is read up to its last factor, with sum and product before it waiting. -/
theorem Sum.reads {words : List Token} {expr : Expr Span} :
    Sum words expr → ∀ (reading : Reading) (body : Body) (purpose : Purpose),
      ∃ level last state, level.purpose = purpose ∧ level.whole last = expr ∧
        State.Holds body level last state ∧
        (reading.enter (.operand body (.fresh purpose))).steps words = .ok (reading.enter state)
  | .term only, reading, body, purpose => by
    obtain ⟨product, last, state, held, rfl, read⟩ := only.reads reading body none purpose
    exact ⟨_, last, state, rfl, rfl, held, read⟩
  | @Sum.operation _ _ _ _ sign op first signed loose last, reading, body, purpose => by
    obtain ⟨level, operand, state, rfl, rfl, held, read⟩ := first.reads reading body purpose
    obtain ⟨product, right, next, nextHeld, rfl, nextRead⟩ := last.reads reading body
      (some ⟨level.whole operand, op⟩) level.purpose
    -- The sign of a sum ends the term before it, for it is no sign of a product.
    have other : op ∉ [BinaryOp.multiply, BinaryOp.divide] := by
      simp only [List.mem_cons, List.not_mem_nil, or_false] at loose
      rcases loose with rfl | rfl <;> decide
    have signRead : (reading.enter state).step? sign =
        some (reading.enter (.operand body
          ⟨some ⟨level.whole operand, op⟩, none, level.purpose⟩)) := by
      rw [step?_of_holds held (isMark_of_isSign signed _)]
      simp only [leaveOperand?, operation?_of_isSign signed, if_neg other, if_pos loose]
      rfl
    refine ⟨⟨some ⟨level.whole operand, op⟩, product, level.purpose⟩, right, next, rfl, rfl,
      nextHeld, ?_⟩
    rw [steps_append read, steps, signRead]
    exact nextRead

/-- Arguments are read up to the last factor of the last one. -/
theorem Arguments.reads {words : List Token} {args : List (Expr Span)} :
    Arguments words args → ∀ (reading : Reading) (body : Body) (level : Level) (callee : Token),
      ∃ inner last state earlier, args = earlier ++ [Level.whole inner last] ∧
        inner.purpose = .argument callee earlier level.sum level.product level.purpose ∧
        State.Holds body inner last state ∧
        (reading.enter (.firstArgument body level callee)).steps words = .ok (reading.enter state)
  | .one only, reading, body, level, callee => by
    obtain ⟨inner, last, state, purpose, rfl, held, read⟩ := only.reads reading body
      (.argument callee [] level.sum level.product level.purpose)
    refine ⟨inner, last, state, [], rfl, purpose, held, steps_firstArgument read ?_⟩
    -- Without a token the state would still ask for the operand.
    rintro rfl
    simp only [steps, enter, Except.ok.injEq, Reading.mk.injEq, true_and] at read
    rcases held with rfl | ⟨name, rfl, -⟩ <;> cases read
  | @Arguments.more _ _ _ _ comma first divides last, reading, body, level, callee => by
    obtain ⟨inner, operand, state, earlier, rfl, purpose, held, read⟩ :=
      first.reads reading body level callee
    obtain ⟨next, right, nextState, nextPurpose, rfl, nextHeld, nextRead⟩ :=
      last.reads reading body
        (.argument callee (earlier ++ [inner.whole operand]) level.sum level.product level.purpose)
    -- The comma adds the argument before it to the earlier ones.
    have commaRead : (reading.enter state).step? comma =
        some (reading.enter (.operand body (.fresh (.argument callee
          (earlier ++ [inner.whole operand]) level.sum level.product level.purpose)))) := by
      rw [step?_of_holds held (isMark_false_of_ne divides (by decide)),
        leaveOperand?_of_isMark divides, purpose]
      simp [leaveExpression?, divides]
    refine ⟨next, right, nextState, _, rfl, nextPurpose, nextHeld, ?_⟩
    rw [steps_append read, steps, commaRead]
    exact nextRead

end

/-- A statement is read behind the statements before it. -/
theorem Step.reads {words : List Token} {statement : Statement Span}
    (derived : Step words statement) (reading : Reading) (body : Body) :
    (reading.enter (.statement body)).steps words =
      .ok (reading.enter (.statement (body.push statement))) := by
  -- The first tokens tell what the expression is read for, and the last one closes it.
  cases derived with
  | @assign target equals closing words value named gets inside closes =>
    obtain ⟨level, last, state, purpose, rfl, held, read⟩ :=
      inside.reads reading body (.assigned target)
    -- A target is neither the brace that closes the body nor the word that returns.
    obtain ⟨-, markless, wordless⟩ := kinds_of_isIdentifier named
    have opened : (reading.enter (.statement body)).steps [target, equals] =
        .ok (reading.enter (.operand body (.fresh (.assigned target)))) := by
      simp [steps, step?, enter, named, gets, markless, wordless]
    -- The semicolon closes the expression and the statement with it.
    have left : (reading.enter state).step? closing =
        some (reading.enter (.statement (body.push
          (.assign (target.span.join closing.span) target.text (level.whole last))))) := by
      rw [step?_of_holds held (isMark_false_of_ne closes (by decide)),
        leaveOperand?_of_isMark closes, purpose]
      simp [leaveExpression?, closes]
    have split := steps_append opened (words ++ [closing])
    simp only [List.cons_append, List.nil_append] at split
    rw [split]
    exact steps_concat read left
  | @returns keyword closing words value leaves inside closes =>
    obtain ⟨level, last, state, purpose, rfl, held, read⟩ :=
      inside.reads reading body (.returned keyword)
    have other : keyword.isMark "\x7d" = false := by
      simp only [Token.isKeyword, Bool.and_eq_true, beq_iff_eq] at leaves
      simp [Token.isMark, leaves.1]
    have opened : (reading.enter (.statement body)).step? keyword =
        some (reading.enter (.operand body (.fresh (.returned keyword)))) := by
      simp [step?, enter, leaves, other]
    have left : (reading.enter state).step? closing =
        some (reading.enter (.statement (body.push
          (.returns (keyword.span.join closing.span) (level.whole last))))) := by
      rw [step?_of_holds held (isMark_false_of_ne closes (by decide)),
        leaveOperand?_of_isMark closes, purpose]
      simp [leaveExpression?, closes]
    rw [steps, opened]
    exact steps_concat read left

/-- Statements are read one by one into a body that has none yet. -/
theorem Steps.reads {words : List Token} {statements : List (Statement Span)}
    (derived : Steps words statements) (reading : Reading) (head : Head) :
    (reading.enter (.statement ⟨head, []⟩)).steps words =
      .ok (reading.enter (.statement ⟨head, statements⟩)) := by
  -- A statement is read behind all that come before it.
  induction derived with
  | none => rfl
  | more _ last ih =>
    rw [steps_append ih, last.reads]
    rfl

/-- Parameters are read one by one into a head that has none yet. -/
theorem Parameters.reads {words : List Token} {params : List (Parameter Span)}
    (derived : Parameters words params) (reading : Reading) (keyword name : Token) :
    (reading.enter (.firstParameter ⟨keyword, name, []⟩)).steps words =
      .ok (reading.enter (.afterParameter ⟨keyword, name, params⟩)) := by
  -- A parameter is read behind all that come before it.
  induction derived with
  | @one param named =>
    -- The first parameter is not the parenthesis that closes an empty list.
    simp [steps, step?, enter, named, (kinds_of_isIdentifier named).2.1, Head.push]
  | more _ divides named ih =>
    rw [steps_append ih]
    simp [steps, step?, enter, divides, named, Head.push]

/-- A constant is read between declarations. -/
theorem ConstantDeclaration.reads {words : List Token} {constant : Constant Span}
    (derived : ConstantDeclaration words constant) (constants : List (Constant Span))
    (functions : List (Function Span)) :
    Reading.steps ⟨constants, functions, .declaration⟩ words =
      .ok ⟨constants ++ [constant], functions, .declaration⟩ := by
  -- Each of the four tokens is the one that its state asks for.
  cases derived with
  | @mk name equals value closing named gets read closes =>
    -- The name is not the word that starts a function.
    have wordless := (kinds_of_isIdentifier named).2.2
    simp [steps, step?, enter, pushConstant, named, gets, read, closes, wordless]

/-- A function is read between declarations. -/
theorem FunctionDeclaration.reads {words : List Token} {function : Function Span}
    (derived : FunctionDeclaration words function) (constants : List (Constant Span))
    (functions : List (Function Span)) :
    Reading.steps ⟨constants, functions, .declaration⟩ words =
      .ok ⟨constants, functions ++ [function], .declaration⟩ := by
  -- The head, the parameters and the body are read in turn.
  cases derived with
  | @mk keyword name opening closing bodyOpening bodyClosing words more params statements starts
      named opens listed closes bodyOpens body bodyCloses =>
    let reading : Reading := ⟨constants, functions, .declaration⟩
    have headRead : reading.steps [keyword, name, opening] =
        .ok (reading.enter (.firstParameter ⟨keyword, name, []⟩)) := by
      simp [reading, steps, step?, enter, starts, named, opens]
    -- An empty list of parameters is closed at once, any other behind its last parameter.
    have listRead : (reading.enter (.firstParameter ⟨keyword, name, []⟩)).steps
        (words ++ [closing]) = .ok (reading.enter (.bodyOpen ⟨keyword, name, params⟩)) := by
      cases listed with
      | none => simp [steps, step?, enter, closes]
      | some listed =>
        refine steps_concat (listed.reads reading keyword name) ?_
        simp [step?, enter, closes, isMark_false_of_ne closes (show ")" ≠ "," by decide)]
    have bodyRead : (reading.enter (.bodyOpen ⟨keyword, name, params⟩)).step? bodyOpening =
        some (reading.enter (.statement ⟨⟨keyword, name, params⟩, []⟩)) := by
      simp [step?, enter, bodyOpens]
    have lastRead : (reading.enter (.statement ⟨⟨keyword, name, params⟩, statements⟩)).step?
        bodyClosing = some (reading.pushFunction
          ⟨keyword.span.join bodyClosing.span, name.text, params, statements⟩) := by
      simp [step?, enter, bodyCloses, pushFunction, Body.function]
    have joined : keyword :: name :: opening ::
        (words ++ closing :: bodyOpening :: (more ++ [bodyClosing])) =
        [keyword, name, opening] ++
          ((words ++ [closing]) ++ (bodyOpening :: (more ++ [bodyClosing]))) := by
      simp
    rw [joined, steps_append headRead, steps_append listRead, steps, bodyRead]
    exact steps_concat (body.reads reading _) lastRead

/-- Declarations are read one by one, from the start on. -/
theorem Declarations.reads {words : List Token} {constants : List (Constant Span)}
    {functions : List (Function Span)} (derived : Declarations words constants functions) :
    Reading.start.steps words = .ok ⟨constants, functions, .declaration⟩ := by
  -- A declaration is read behind all that come before it.
  induction derived with
  | none => rfl
  | constant _ last ih => rw [steps_append ih, last.reads]
  | function _ last ih => rw [steps_append ih, last.reads]

end Grammar

end DoubleLang
