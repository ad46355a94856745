import DoubleLang.Proofs.Program.Completeness

/-!
Whatever is read derives from the grammar.

Between two tokens the state accounts for every token since the last complete declaration: it holds
the derivations of what is complete and says which production each of the others began.
-/

namespace DoubleLang

namespace Grammar

open Reading

/-- The tokens of a sum up to the sign behind which its next term is awaited. -/
def SumWaits : Option Waiting → List Token → Prop
  | none, words => words = []
  | some ⟨left, op⟩, words => ∃ before sign, words = before ++ [sign] ∧ Sum before left ∧
      IsSign sign op ∧ op ∈ [.add, .subtract]

/-- The tokens of a term up to the sign behind which its next factor is awaited. -/
def TermWaits : Option Waiting → List Token → Prop
  | none, words => words = []
  | some ⟨left, op⟩, words => ∃ before sign, words = before ++ [sign] ∧ Term before left ∧
      IsSign sign op ∧ op ∈ [.multiply, .divide]

/-- The tokens of arguments up to the comma behind which the next one is awaited. -/
def ArgumentWaits (earlier : List (Expr Span)) (words : List Token) : Prop :=
  earlier = [] ∧ words = [] ∨
    ∃ before comma, words = before ++ [comma] ∧ Arguments before earlier ∧
      comma.isMark "," = true

/-- The tokens of a statement before the expression that is being read for a purpose. -/
def PurposeRead : Purpose → List Token → Prop
  | .returned keyword, words => keyword.isKeyword "return" = true ∧ words = [keyword]
  | .assigned target, words => ∃ equals : Token, target.isIdentifier = true ∧
      equals.isMark "=" = true ∧ words = [target, equals]
  -- The operations outside wait in front of the parenthesis, and theirs before them.
  | .grouped opening sum product outer, words => ∃ before sumWords termWords,
      PurposeRead outer before ∧ SumWaits sum sumWords ∧ TermWaits product termWords ∧
      opening.isMark "(" = true ∧ words = before ++ (sumWords ++ (termWords ++ [opening]))
  | .argument callee earlier sum product outer, words =>
      ∃ before sumWords termWords argumentWords, ∃ opening : Token,
        PurposeRead outer before ∧ SumWaits sum sumWords ∧ TermWaits product termWords ∧
        callee.isIdentifier = true ∧ opening.isMark "(" = true ∧
        ArgumentWaits earlier argumentWords ∧
        words = before ++ (sumWords ++ (termWords ++ callee :: opening :: argumentWords))

/-- The tokens of a statement before the operand that a level is about to take. -/
def LevelRead (level : Level) (words : List Token) : Prop :=
  ∃ before sumWords termWords, PurposeRead level.purpose before ∧ SumWaits level.sum sumWords ∧
    TermWaits level.product termWords ∧ words = before ++ (sumWords ++ termWords)

/-- The tokens of a function up to its opening parenthesis. -/
def HeadOpened (head : Head) (words : List Token) : Prop :=
  ∃ opening : Token, head.keyword.isKeyword "fun" = true ∧ head.name.isIdentifier = true ∧
    opening.isMark "(" = true ∧ words = [head.keyword, head.name, opening]

/-- The tokens of a function up to its closing parenthesis. -/
def HeadRead (head : Head) (words : List Token) : Prop :=
  ∃ before inside, ∃ closing : Token, HeadOpened head before ∧ ParameterList inside head.params ∧
    closing.isMark ")" = true ∧ words = before ++ (inside ++ [closing])

/-- The tokens of a function up to the end of a statement. -/
def BodyRead (body : Body) (words : List Token) : Prop :=
  ∃ before inside, ∃ opening : Token, HeadRead body.head before ∧ opening.isMark "\x7b" = true ∧
    Steps inside body.statements ∧ words = before ++ opening :: inside

/-- The tokens since the last complete declaration, as the state accounts for them. -/
def StateRead : State → List Token → Prop
  | .declaration, words => words = []
  | .constantEquals name, words => name.isIdentifier = true ∧ words = [name]
  | .constantValue name, words => ∃ equals : Token, name.isIdentifier = true ∧
      equals.isMark "=" = true ∧ words = [name, equals]
  | .constantEnd name value, words => ∃ equals : Token, name.isIdentifier = true ∧
      equals.isMark "=" = true ∧ value.isNumber = true ∧ words = [name, equals, value]
  | .functionName keyword, words => keyword.isKeyword "fun" = true ∧ words = [keyword]
  | .parametersOpen keyword name, words => keyword.isKeyword "fun" = true ∧
      name.isIdentifier = true ∧ words = [keyword, name]
  | .firstParameter head, words => HeadOpened head words ∧ head.params = []
  | .nextParameter head, words => ∃ before inside, ∃ comma : Token, HeadOpened head before ∧
      Parameters inside head.params ∧ comma.isMark "," = true ∧
      words = before ++ (inside ++ [comma])
  | .afterParameter head, words => ∃ before inside, HeadOpened head before ∧
      Parameters inside head.params ∧ words = before ++ inside
  | .bodyOpen head, words => HeadRead head words
  | .statement body, words => BodyRead body words
  | .assignmentEquals body target, words => ∃ before, BodyRead body before ∧
      target.isIdentifier = true ∧ words = before ++ [target]
  | .operand body level, words => ∃ before inside, BodyRead body before ∧
      LevelRead level inside ∧ words = before ++ inside
  | .firstArgument body level callee, words => ∃ before inside, ∃ opening : Token,
      BodyRead body before ∧ LevelRead level inside ∧ callee.isIdentifier = true ∧
      opening.isMark "(" = true ∧ words = before ++ (inside ++ [callee, opening])
  | .afterName body level name, words => ∃ before inside, BodyRead body before ∧
      LevelRead level inside ∧ name.isIdentifier = true ∧ words = before ++ (inside ++ [name])
  | .afterOperand body level operand, words => ∃ before inside last, BodyRead body before ∧
      LevelRead level inside ∧ Factor last operand ∧ words = before ++ (inside ++ last)

/-- All tokens read so far: complete declarations, and what the state accounts for. -/
def Accounts (reading : Reading) (words : List Token) : Prop :=
  ∃ done rest, Declarations done reading.constants reading.functions ∧
    StateRead reading.state rest ∧ words = done ++ rest

/-- A factor ends the term before it. -/
theorem TermWaits.term {product : Option Waiting} {words more : List Token} {last : Expr Span}
    (waits : TermWaits product words) (factor : Factor more last) :
    Term (words ++ more) (Waiting.apply product last) := by
  -- What waits is nothing or a product with its sign.
  cases product with
  | none =>
    cases waits
    exact .factor factor
  | some waiting =>
    obtain ⟨before, sign, rfl, first, signed, tight⟩ := waits
    rw [List.append_assoc]
    exact .operation first signed tight factor

/-- A term ends the sum before it. -/
theorem SumWaits.sum {sum : Option Waiting} {words more : List Token} {last : Expr Span}
    (waits : SumWaits sum words) (term : Term more last) :
    Sum (words ++ more) (Waiting.apply sum last) := by
  -- What waits is nothing or a sum with its sign.
  cases sum with
  | none =>
    cases waits
    exact .term term
  | some waiting =>
    obtain ⟨before, sign, rfl, first, signed, loose⟩ := waits
    rw [List.append_assoc]
    exact .operation first signed loose term

/-- An expression is one more argument behind the earlier ones. -/
theorem ArgumentWaits.arguments {earlier : List (Expr Span)} {words more : List Token}
    {last : Expr Span} (waits : ArgumentWaits earlier words) (sum : Sum more last) :
    Arguments (words ++ more) (earlier ++ [last]) := by
  -- What waits is nothing or arguments with a comma.
  rcases waits with ⟨rfl, rfl⟩ | ⟨before, comma, rfl, first, divides⟩
  · exact .one sum
  · simpa using Arguments.more first divides sum

/-- What a token is found to stand for, it is a sign of. -/
private theorem isSign_of_operation? {ops : List BinaryOp} {token : Token} {op : BinaryOp}
    (found : operation? ops token = some op) : IsSign token op ∧ op ∈ ops := by
  -- An operation is found by the kind and the sign of its token.
  unfold operation? at found
  split at found
  · rename_i kind
    have text := List.find?_some found
    exact ⟨⟨by simpa using kind, by simpa using (beq_iff_eq.mp text).symm⟩,
      List.mem_of_find?_eq_some found⟩
  · cases found

/-- The first token of an operand opens what the next state accounts for. -/
private theorem enterOperand?_accounts {body : Body} {level : Level} {token : Token} {next : State}
    {before inside : List Token} (bodyRead : BodyRead body before)
    (levelRead : LevelRead level inside) (found : enterOperand? body level token = some next) :
    StateRead next (before ++ (inside ++ [token])) := by
  -- A token opens a number, a name or a parenthesis, or it is refused.
  unfold enterOperand? at found
  split at found
  · rename_i number
    cases found
    exact ⟨before, inside, [token], bodyRead, levelRead, .number number, rfl⟩
  · split at found
    · rename_i named
      cases found
      exact ⟨before, inside, bodyRead, levelRead, named, rfl⟩
    · split at found
      · -- The level outside is kept in the purpose of the one that opens.
        rename_i opens
        cases found
        obtain ⟨first, sumWords, termWords, purpose, sum, product, rfl⟩ := levelRead
        refine ⟨before, _, bodyRead, ⟨_, [], [], ⟨first, sumWords, termWords, purpose, sum, product,
          opens, rfl⟩, rfl, rfl, rfl⟩, ?_⟩
        simp
      · cases found

/-- The token that closes an expression completes the production its purpose began. -/
private theorem leaveExpression?_accounts {body : Body} {purpose : Purpose} {whole : Expr Span}
    {token : Token} {next : State} {before opened inside : List Token}
    (bodyRead : BodyRead body before) (purposeRead : PurposeRead purpose opened)
    (sum : Sum inside whole) (found : leaveExpression? body purpose whole token = some next) :
    StateRead next (before ++ (opened ++ (inside ++ [token]))) := by
  -- What ends the expression depends on what it was read for.
  obtain ⟨headWords, stepWords, opening, headRead, opens, steps, rfl⟩ := bodyRead
  cases purpose with
  | returned keyword =>
    obtain ⟨leaves, rfl⟩ := purposeRead
    simp only [leaveExpression?, Option.ite_none_right_eq_some, Option.some.injEq] at found
    obtain ⟨closes, rfl⟩ := found
    exact ⟨headWords, _, opening, headRead, opens, .more steps (.returns leaves sum closes),
      by simp⟩
  | assigned target =>
    obtain ⟨equals, named, gets, rfl⟩ := purposeRead
    simp only [leaveExpression?, Option.ite_none_right_eq_some, Option.some.injEq] at found
    obtain ⟨closes, rfl⟩ := found
    exact ⟨headWords, _, opening, headRead, opens, .more steps (.assign named gets sum closes),
      by simp⟩
  | grouped parenthesis outerSum outerProduct outer =>
    -- The group is a factor of the level outside.
    obtain ⟨first, sumWords, termWords, outerRead, waitsSum, waitsTerm, mark, rfl⟩ := purposeRead
    simp only [leaveExpression?, Option.ite_none_right_eq_some, Option.some.injEq] at found
    obtain ⟨closes, rfl⟩ := found
    exact ⟨_, _, _, ⟨headWords, stepWords, opening, headRead, opens, steps, rfl⟩,
      ⟨first, sumWords, termWords, outerRead, waitsSum, waitsTerm, rfl⟩, .group mark sum closes,
      by simp⟩
  | argument callee earlier outerSum outerProduct outer =>
    obtain ⟨first, sumWords, termWords, argumentWords, parenthesis, outerRead, waitsSum, waitsTerm,
      named, mark, waits, rfl⟩ := purposeRead
    have bodyRead : BodyRead body (headWords ++ opening :: stepWords) :=
      ⟨headWords, stepWords, opening, headRead, opens, steps, rfl⟩
    simp only [leaveExpression?] at found
    split at found
    · -- A comma keeps the call open, with one more argument behind it.
      rename_i divides
      cases found
      refine ⟨_, _, bodyRead, ⟨_, [], [], ⟨first, sumWords, termWords, _, parenthesis, outerRead,
        waitsSum, waitsTerm, named, mark, .inr ⟨_, token, rfl, waits.arguments sum, divides⟩, rfl⟩,
        rfl, rfl, rfl⟩, ?_⟩
      simp
    · -- The parenthesis closes the call, which is a factor of the level outside.
      simp only [Option.ite_none_right_eq_some, Option.some.injEq] at found
      obtain ⟨closes, rfl⟩ := found
      exact ⟨_, _, _, bodyRead, ⟨first, sumWords, termWords, outerRead, waitsSum, waitsTerm, rfl⟩,
        .call named mark (waits.arguments sum) closes, by simp⟩

/-- The token behind an operand goes on with the expression or closes it. -/
private theorem leaveOperand?_accounts {body : Body} {level : Level} {last : Expr Span}
    {token : Token}
    {next : State} {before inside factorWords : List Token} (bodyRead : BodyRead body before)
    (levelRead : LevelRead level inside) (factor : Factor factorWords last)
    (found : leaveOperand? body level last token = some next) :
    StateRead next (before ++ (inside ++ (factorWords ++ [token]))) := by
  -- A sign of a product, a sign of a sum or the end of the expression follows an operand.
  obtain ⟨opened, sumWords, termWords, purpose, waitsSum, waitsTerm, rfl⟩ := levelRead
  have term := waitsTerm.term factor
  unfold leaveOperand? at found
  split at found
  · -- The sign of a product makes the term so far wait.
    rename_i op tight
    obtain ⟨signed, tight⟩ := isSign_of_operation? tight
    cases found
    refine ⟨before, _, bodyRead, ⟨opened, sumWords, _, purpose, waitsSum,
      ⟨_, token, rfl, term, signed, tight⟩, rfl⟩, ?_⟩
    simp
  · split at found
    · -- The sign of a sum ends the term and makes the sum so far wait.
      rename_i op loose
      obtain ⟨signed, loose⟩ := isSign_of_operation? loose
      cases found
      refine ⟨before, _, bodyRead, ⟨opened, _, [], purpose,
        ⟨_, token, rfl, waitsSum.sum term, signed, loose⟩, rfl, rfl⟩, ?_⟩
      simp
    · -- No sign follows, so the expression is complete.
      have closed := leaveExpression?_accounts bodyRead purpose (waitsSum.sum term) found
      simpa using closed

/-- A step keeps the account of the tokens, with one token more. -/
private theorem step?_accounts {reading next : Reading} {words : List Token} {token : Token}
    (accounts : Accounts reading words) (step : reading.step? token = some next) :
    Accounts next (words ++ [token]) := by
  -- Each state tells which tokens it goes on with, and what they add to the account.
  obtain ⟨done, rest, declared, stateRead, rfl⟩ := accounts
  obtain ⟨constants, functions, state⟩ := reading
  -- A state that is entered declares nothing, so only its own account changes.
  have entered : ∀ {entry : State}, StateRead entry (rest ++ [token]) →
      Accounts (Reading.enter ⟨constants, functions, state⟩ entry) (done ++ rest ++ [token]) :=
    fun read => ⟨done, rest ++ [token], declared, read, by simp⟩
  cases state with
  | declaration =>
    -- A function starts with its keyword, and a constant with its name.
    cases stateRead
    simp only [step?] at step
    split at step
    · rename_i starts
      cases step
      exact entered ⟨starts, rfl⟩
    · simp only [Option.ite_none_right_eq_some, Option.some.injEq] at step
      obtain ⟨named, rfl⟩ := step
      exact entered ⟨named, rfl⟩
  | constantEquals name =>
    obtain ⟨named, rfl⟩ := stateRead
    simp only [step?, Option.ite_none_right_eq_some, Option.some.injEq] at step
    obtain ⟨gets, rfl⟩ := step
    exact entered ⟨token, named, gets, rfl⟩
  | constantValue name =>
    obtain ⟨equals, named, gets, rfl⟩ := stateRead
    simp only [step?, Option.ite_none_right_eq_some, Option.some.injEq] at step
    obtain ⟨read, rfl⟩ := step
    exact entered ⟨equals, named, gets, read, rfl⟩
  | constantEnd name value =>
    obtain ⟨equals, named, gets, read, rfl⟩ := stateRead
    simp only [step?, Option.ite_none_right_eq_some, Option.some.injEq] at step
    obtain ⟨closes, rfl⟩ := step
    -- The semicolon completes the constant, and with it a declaration.
    exact ⟨_, [], .constant declared (.mk named gets read closes), rfl, by simp⟩
  | functionName keyword =>
    obtain ⟨starts, rfl⟩ := stateRead
    simp only [step?, Option.ite_none_right_eq_some, Option.some.injEq] at step
    obtain ⟨named, rfl⟩ := step
    exact entered ⟨starts, named, rfl⟩
  | parametersOpen keyword name =>
    obtain ⟨starts, named, rfl⟩ := stateRead
    simp only [step?, Option.ite_none_right_eq_some, Option.some.injEq] at step
    obtain ⟨opens, rfl⟩ := step
    exact entered ⟨⟨token, starts, named, opens, rfl⟩, rfl⟩
  | firstParameter head =>
    obtain ⟨opened, empty⟩ := stateRead
    simp only [step?] at step
    split at step
    · -- The list closes without a parameter.
      rename_i closes
      cases step
      exact entered ⟨rest, [], token, opened, empty ▸ .none, closes, rfl⟩
    · simp only [Option.ite_none_right_eq_some, Option.some.injEq] at step
      obtain ⟨named, rfl⟩ := step
      refine entered ⟨rest, [token], opened, ?_, rfl⟩
      simpa [Head.push, empty] using Parameters.one named
  | nextParameter head =>
    obtain ⟨before, inside, comma, opened, listed, divides, rfl⟩ := stateRead
    simp only [step?, Option.ite_none_right_eq_some, Option.some.injEq] at step
    obtain ⟨named, rfl⟩ := step
    exact entered ⟨before, _, opened, .more listed divides named, by simp⟩
  | afterParameter head =>
    obtain ⟨before, inside, opened, listed, rfl⟩ := stateRead
    simp only [step?] at step
    split at step
    · -- A comma keeps the list open.
      rename_i divides
      cases step
      exact entered ⟨before, inside, token, opened, listed, divides, by simp⟩
    · simp only [Option.ite_none_right_eq_some, Option.some.injEq] at step
      obtain ⟨closes, rfl⟩ := step
      exact entered ⟨before, inside, token, opened, .some listed, closes, by simp⟩
  | bodyOpen head =>
    simp only [step?, Option.ite_none_right_eq_some, Option.some.injEq] at step
    obtain ⟨opens, rfl⟩ := step
    exact entered ⟨rest, [], token, stateRead, opens, .none, rfl⟩
  | statement body =>
    simp only [step?] at step
    split at step
    · -- The brace completes the function, and with it a declaration.
      rename_i bodyCloses
      cases step
      obtain ⟨_, more, bodyOpening, ⟨_, inside, closing, ⟨opening, starts, named, opens, rfl⟩,
        listed, closes, rfl⟩, bodyOpens, steps, rfl⟩ := stateRead
      exact ⟨_, [], .function declared
        (.mk starts named opens listed closes bodyOpens steps bodyCloses), rfl, by simp⟩
    · split at step
      · -- A return opens the level of its expression at once.
        rename_i leaves
        cases step
        exact entered
          ⟨rest, [token], stateRead, ⟨[token], [], [], ⟨leaves, rfl⟩, rfl, rfl, rfl⟩, rfl⟩
      · simp only [Option.ite_none_right_eq_some, Option.some.injEq] at step
        obtain ⟨named, rfl⟩ := step
        exact entered ⟨rest, stateRead, named, rfl⟩
  | assignmentEquals body target =>
    obtain ⟨before, bodyRead, named, rfl⟩ := stateRead
    simp only [step?, Option.ite_none_right_eq_some, Option.some.injEq] at step
    obtain ⟨gets, rfl⟩ := step
    exact entered ⟨before, [target, token], bodyRead,
      ⟨_, [], [], ⟨token, named, gets, rfl⟩, rfl, rfl, rfl⟩, by simp⟩
  | operand body level =>
    obtain ⟨before, inside, bodyRead, levelRead, rfl⟩ := stateRead
    obtain ⟨entry, found, rfl⟩ := Option.map_eq_some_iff.mp step
    exact entered (by simpa using enterOperand?_accounts bodyRead levelRead found)
  | firstArgument body level callee =>
    obtain ⟨before, inside, opening, bodyRead, levelRead, named, opens, rfl⟩ := stateRead
    simp only [step?] at step
    split at step
    · -- The call closes without an argument.
      rename_i closes
      cases step
      exact entered ⟨before, inside, _, bodyRead, levelRead, .callEmpty named opens closes, by simp⟩
    · -- The level of the first argument opens behind the callee and its parenthesis.
      obtain ⟨entry, found, rfl⟩ := Option.map_eq_some_iff.mp step
      obtain ⟨first, sumWords, termWords, purpose, waitsSum, waitsTerm, rfl⟩ := levelRead
      have argument : LevelRead
          (.fresh (.argument callee [] level.sum level.product level.purpose))
          (first ++ (sumWords ++ (termWords ++ [callee, opening]))) :=
        ⟨_, [], [], ⟨first, sumWords, termWords, [], opening, purpose, waitsSum, waitsTerm, named,
          opens, .inl ⟨rfl, rfl⟩, rfl⟩, rfl, rfl, by simp⟩
      exact entered (by simpa using enterOperand?_accounts bodyRead argument found)
  | afterName body level name =>
    obtain ⟨before, inside, bodyRead, levelRead, named, rfl⟩ := stateRead
    simp only [step?] at step
    split at step
    · -- A parenthesis makes the name a callee, and any other token leaves it a factor.
      rename_i opens
      cases step
      exact entered ⟨before, inside, token, bodyRead, levelRead, named, opens, by simp⟩
    · obtain ⟨entry, found, rfl⟩ := Option.map_eq_some_iff.mp step
      exact entered (by simpa using leaveOperand?_accounts bodyRead levelRead (.name named) found)
  | afterOperand body level operand =>
    obtain ⟨before, inside, last, bodyRead, levelRead, factor, rfl⟩ := stateRead
    obtain ⟨entry, found, rfl⟩ := Option.map_eq_some_iff.mp step
    exact entered (by simpa using leaveOperand?_accounts bodyRead levelRead factor found)

/-- A run of steps accounts for all the tokens it has read. -/
private theorem steps_accounts {reading next : Reading} {words more : List Token}
    (accounts : Accounts reading words) (read : reading.steps more = .ok next) :
    Accounts next (words ++ more) := by
  -- Every step accounts for one more token.
  induction more generalizing reading words with
  | nil =>
    simp only [steps, Except.ok.injEq] at read
    simpa [read] using accounts
  | cons token rest ih =>
    rw [steps] at read
    split at read
    · rename_i later step
      simpa using ih (step?_accounts accounts step) read
    · cases read

/-- Tokens are read from the start to a place between declarations exactly if they derive. -/
theorem steps_start_iff {words : List Token} {constants : List (Constant Span)}
    {functions : List (Function Span)} :
    Reading.start.steps words = .ok ⟨constants, functions, .declaration⟩ ↔
      Declarations words constants functions := by
  -- The start accounts for no tokens, and derivations are read as they are built.
  constructor
  · intro read
    have nothing : Accounts Reading.start [] := ⟨[], [], .none, rfl, rfl⟩
    obtain ⟨done, rest, declared, rfl, same⟩ := steps_accounts nothing read
    simp only [List.nil_append, List.append_nil] at same
    rwa [same]
  · exact Declarations.reads

/-- Tokens whose last one ends the input. -/
def Ended (tokens : List Token) : Prop :=
  ∃ front last, tokens = front ++ [last] ∧ last.kind = .finish

/-- The tokens in front of the first one that ends the input. -/
def sentence (tokens : List Token) : List Token :=
  tokens.takeWhile (·.kind != .finish)

/-- A program declares what its tokens derive, and spans from the first of them to their end. -/
structure Derives (file : String) (tokens : List Token) (program : Program Span) : Prop where
  declared : Declarations (sentence tokens) program.constants program.functions
  named : program.file = file
  spanned : ∃ first stop later, tokens.head? = some first ∧
    tokens = sentence tokens ++ stop :: later ∧ program.note = first.span.join stop.span

/-- The first token that ends the input stands right behind the sentence. -/
theorem find?_isFinish {tokens : List Token} {stop : Token} :
    tokens.find? Token.isFinish = some stop ↔
      ∃ later, tokens = sentence tokens ++ stop :: later := by
  -- The sentence stops at the first token that ends the input.
  have classes : ∀ token : Token, (token.kind != .finish) = !token.isFinish := fun _ => rfl
  induction tokens with
  | nil => simp
  | cons token rest ih =>
    cases ends : token.isFinish with
    | true => simp [sentence, classes, ends]
    | false =>
      simp only [List.find?_cons, ends, ih]
      simp [sentence, classes, ends]

/-- Tokens are ended when the last of them is found to end the input. -/
theorem ended_iff {tokens : List Token} :
    Ended tokens ↔ (tokens.getLast?.map Token.isFinish).getD false = true := by
  -- Tokens that are not empty have a last one, and it decides.
  rcases List.eq_nil_or_concat tokens with rfl | ⟨front, last, rfl⟩
  · simp [Ended]
  · have same : Ended (front ++ [last]) ↔ last.kind = .finish := by
      constructor
      · rintro ⟨other, final, split, ends⟩
        obtain ⟨-, only⟩ := List.append_inj' split rfl
        simp only [List.cons.injEq, and_true] at only
        rw [only, ends]
      · exact fun ends => ⟨front, last, rfl, ends⟩
    simp [same, Token.isFinish]

/-- Input is ended, and complete declarations are taken as they are, between declarations only. -/
private theorem finish_eq_ok_iff {reading : Reading} {file : String} {first stop : Token}
    {program : Program Span} :
    reading.finish file first stop = .ok program ↔
      reading = ⟨program.constants, program.functions, .declaration⟩ ∧ program.file = file ∧
        program.note = first.span.join stop.span := by
  -- Only a reading between declarations is taken.
  obtain ⟨constants, functions, state⟩ := reading
  obtain ⟨note, name, programConstants, programFunctions⟩ := program
  cases state with
  | declaration =>
    simp only [finish, Except.ok.injEq, Program.mk.injEq, Reading.mk.injEq, and_true]
    constructor
    · rintro ⟨rfl, rfl, rfl, rfl⟩
      exact ⟨⟨rfl, rfl⟩, rfl, rfl⟩
    · rintro ⟨⟨rfl, rfl⟩, rfl, rfl⟩
      exact ⟨rfl, rfl, rfl, rfl⟩
  | _ => simp [finish]

/-- Ended tokens are read as their sentence, up to the token right behind it. -/
theorem read_of_ended (file : String) {tokens : List Token} (ended : Ended tokens) :
    ∃ first stop later, tokens.head? = some first ∧ tokens = sentence tokens ++ stop :: later ∧
      Program.read file tokens =
        (Reading.start.steps (sentence tokens)).bind (·.finish file first stop) := by
  -- Reading looks for the first token that ends the input, and starts from the first of all.
  have final := ended_iff.mp ended
  obtain ⟨front, last, rfl, ends⟩ := ended
  -- The last token ends the input, so some token is the first that does.
  obtain ⟨stop, found⟩ : ∃ stop, (front ++ [last]).find? Token.isFinish = some stop := by
    rw [← Option.isSome_iff_exists, List.find?_isSome]
    exact ⟨last, by simp, by simp [Token.isFinish, ends]⟩
  obtain ⟨first, rest, starts⟩ : ∃ first rest, front ++ [last] = first :: rest :=
    List.exists_cons_of_ne_nil (by simp)
  obtain ⟨later, split⟩ := find?_isFinish.mp found
  rw [starts] at found final split ⊢
  refine ⟨first, stop, later, rfl, split, ?_⟩
  simp only [Program.read, found, final, if_true]
  rfl

/-- Only ended tokens are read. -/
theorem ended_of_read {file : String} {tokens : List Token} {program : Program Span}
    (success : Program.read file tokens = .ok program) : Ended tokens := by
  -- Both other branches refuse the tokens.
  rw [ended_iff]
  unfold Program.read at success
  split at success
  · split at success
    · assumption
    · cases success
  · cases success

/-- What is read is declared by the sentence. -/
theorem declarations_of_bind {file : String} {words : List Token} {first stop : Token}
    {program : Program Span}
    (success : (Reading.start.steps words).bind (·.finish file first stop) = .ok program) :
    Declarations words program.constants program.functions ∧ program.file = file ∧
      program.note = first.span.join stop.span := by
  -- The reading that is finished has been reached from the start.
  cases steps : Reading.start.steps words with
  | error refusal => simp [steps, Except.bind] at success
  | ok reading =>
    simp only [steps, Except.bind] at success
    obtain ⟨rfl, named, spanned⟩ := finish_eq_ok_iff.mp success
    exact ⟨steps_start_iff.mp steps, named, spanned⟩

end Grammar

open Grammar in
/-- Tokens that end the input are read exactly as their sentence derives from the grammar, and no
others are read at all. -/
theorem Program.read_eq_ok_iff_derives (file : String) (tokens : List Token) :
    (Ended tokens → ∀ program, Program.read file tokens = .ok program ↔
      Derives file tokens program) ∧
    (¬ Ended tokens → ∀ program, Program.read file tokens ≠ .ok program) := by
  -- The first token, the sentence and the end are told by the tokens.
  refine ⟨?_, fun unended program success => unended (ended_of_read success)⟩
  intro ended program
  obtain ⟨first, stop, later, starts, split, read⟩ := read_of_ended file ended
  rw [read]
  constructor
  · intro success
    obtain ⟨declared, named, spanned⟩ := declarations_of_bind success
    exact ⟨declared, named, first, stop, later, starts, split, spanned⟩
  · rintro ⟨declared, named, other, otherStop, otherLater, same, otherSplit, spanned⟩
    -- Only one token stands right behind the sentence.
    obtain rfl : stop = otherStop := by
      have found := find?_isFinish.mpr ⟨later, split⟩
      rw [find?_isFinish.mpr ⟨otherLater, otherSplit⟩] at found
      exact (Option.some.inj found).symm
    obtain rfl : first = other := Option.some.inj (starts.symm.trans same)
    rw [steps_start_iff.mpr declared]
    exact finish_eq_ok_iff.mpr ⟨rfl, named, spanned⟩

end DoubleLang
