import DoubleLang.Proofs.Program.Parsed

/-!
The trees that texts are read as.

Operations group to the left, and a tighter one comes before a looser one unless parentheses say
otherwise. So only some trees of operations come up without parentheses, and the names and numbers
in them are words of the language. Every program that is read from a text is of this form.
-/

namespace DoubleLang

/-- A text that names something: an identifier and no keyword. -/
def IsName (text : String) : Prop :=
  Piece.isIdentifierText text.toList = true ∧ text ∉ Piece.keywords

instance (text : String) : Decidable (IsName text) :=
  inferInstanceAs (Decidable (_ ∧ _))

/-- A text that is a number, with a sign or without. -/
def IsNumeral (text : String) : Prop :=
  Piece.IsNumber text.toList

/-- A number is what is read as one from its first character to its last. -/
private theorem isNumeral_iff {text : String} :
    IsNumeral text ↔ Piece.number? false text.toList = some text.toList := by
  -- Nothing stands behind the text, so nothing makes the number longer.
  constructor
  · intro number
    have ends : Piece.EndsNumber text.toList [] := by simp [Piece.EndsNumber, Piece.StartsWith]
    simpa using Piece.number?_of_isNumber number ends fun _ => rfl
  · intro read
    exact (@Piece.isNumber_of_number? false text.toList [] (by simpa using read)).1

instance (text : String) : Decidable (IsNumeral text) :=
  decidable_of_iff _ isNumeral_iff.symm

section Normal

variable {α : Type}

/-- The operation an expression ends with, if it is one outside parentheses. -/
def Expr.operation? : Expr α → Option BinaryOp
  | .binary _ op _ _ => some op
  | _ => none

mutual

/-- An expression of names and numbers whose operations group as they are read. -/
def Expr.Normal : Expr α → Prop
  | .literal _ text => IsNumeral text
  | .name _ read => IsName read
  | .binary _ op left right =>
    left.Normal ∧ right.Normal ∧
      (op ∈ [.multiply, .divide] →
        left.operation? ∉ [some .add, some .subtract] ∧ right.operation? = none) ∧
      (op ∈ [.add, .subtract] → right.operation? ∉ [some .add, some .subtract])
  | .call _ callee args => IsName callee ∧ Expr.NormalAll args
  | .group _ inner => inner.Normal

/-- Expressions in a row that are all normal. -/
def Expr.NormalAll : List (Expr α) → Prop
  | [] => True
  | arg :: rest => arg.Normal ∧ Expr.NormalAll rest

end

/-- A statement with a normal expression and a name as its target. -/
def Statement.Normal : Statement α → Prop
  | .assign _ target value => IsName target ∧ value.Normal
  | .returns _ value => value.Normal

/-- A function whose names are names and whose statements are normal. -/
structure Function.Normal (function : Function α) : Prop where
  named : IsName function.name
  params : ∀ param ∈ function.params, IsName param.name
  body : ∀ statement ∈ function.body, statement.Normal

/-- A constant with a name and a number. -/
structure Constant.Normal (constant : Constant α) : Prop where
  named : IsName constant.name
  value : IsNumeral constant.value

/-- A program of normal constants and functions. -/
structure Program.Normal (program : Program α) : Prop where
  constants : ∀ constant ∈ program.constants, constant.Normal
  functions : ∀ function ∈ program.functions, function.Normal

mutual

/-- Whether an expression is normal can be computed. -/
def Expr.decideNormal : (expr : Expr α) → Decidable expr.Normal
  | .literal _ text => inferInstanceAs (Decidable (IsNumeral text))
  | .name _ read => inferInstanceAs (Decidable (IsName read))
  | .binary _ _ left right =>
    have := left.decideNormal
    have := right.decideNormal
    inferInstanceAs (Decidable (_ ∧ _ ∧ (_ → _ ∧ _) ∧ (_ → _)))
  | .call _ callee args =>
    have := Expr.decideNormalAll args
    inferInstanceAs (Decidable (IsName callee ∧ _))
  | .group _ inner => inner.decideNormal

/-- Whether expressions in a row are normal can be computed. -/
def Expr.decideNormalAll : (args : List (Expr α)) → Decidable (Expr.NormalAll args)
  | [] => .isTrue trivial
  | arg :: rest =>
    have := arg.decideNormal
    have := Expr.decideNormalAll rest
    inferInstanceAs (Decidable (_ ∧ _))

end

instance (expr : Expr α) : Decidable expr.Normal := expr.decideNormal

instance : (statement : Statement α) → Decidable statement.Normal
  | .assign _ _ value => inferInstanceAs (Decidable (_ ∧ value.Normal))
  | .returns _ value => inferInstanceAs (Decidable value.Normal)

instance (function : Function α) : Decidable function.Normal :=
  decidable_of_iff (IsName function.name ∧ (∀ param ∈ function.params, IsName param.name) ∧
      ∀ statement ∈ function.body, statement.Normal)
    ⟨fun ⟨named, params, body⟩ => ⟨named, params, body⟩,
      fun ⟨named, params, body⟩ => ⟨named, params, body⟩⟩

instance (constant : Constant α) : Decidable constant.Normal :=
  decidable_of_iff (IsName constant.name ∧ IsNumeral constant.value)
    ⟨fun ⟨named, value⟩ => ⟨named, value⟩, fun ⟨named, value⟩ => ⟨named, value⟩⟩

instance (program : Program α) : Decidable program.Normal :=
  decidable_of_iff ((∀ constant ∈ program.constants, constant.Normal) ∧
      ∀ function ∈ program.functions, function.Normal)
    ⟨fun ⟨constants, functions⟩ => ⟨constants, functions⟩,
      fun ⟨constants, functions⟩ => ⟨constants, functions⟩⟩

end Normal

/-- A token whose text is a name or a number if its kind says so. -/
structure Token.Lexed (token : Token) : Prop where
  name : token.isIdentifier = true → IsName token.text
  number : token.isNumber = true → IsNumeral token.text

/-- The tokens of a text have the texts their kinds say. -/
private theorem Token.lexed_of_scan {file text : String} {tokens : List Token}
    (scanned : Token.scan file text = .ok tokens) {token : Token} (member : token ∈ tokens) :
    token.Lexed := by
  -- The kind says which of the shapes the piece behind the token has.
  constructor
  · intro named
    have kind : token.kind = .identifier := by simpa [Token.isIdentifier] using named
    obtain ⟨afterOperand, rest, fits⟩ := fits_of_scan scanned member (by simp [kind])
    rw [kind] at fits
    exact ⟨fits.1, by simpa using fits.2.1⟩
  · intro numeric
    have kind : token.kind = .number := by simpa [Token.isNumber] using numeric
    obtain ⟨afterOperand, rest, fits⟩ := fits_of_scan scanned member (by simp [kind])
    rw [kind] at fits
    exact fits.1

/-- One more normal expression behind normal ones. -/
private theorem Expr.normalAll_append {α : Type} {args : List (Expr α)} {arg : Expr α}
    (first : Expr.NormalAll args) (last : arg.Normal) : Expr.NormalAll (args ++ [arg]) := by
  -- Those in front are taken off one by one.
  induction args with
  | nil => exact ⟨last, trivial⟩
  | cons other rest ih => exact ⟨first.1, ih first.2⟩

namespace Grammar

mutual

/-- A factor is normal, and no operation outside parentheses. -/
theorem Factor.normal {words : List Token} {expr : Expr Span} :
    Factor words expr → (∀ token ∈ words, token.Lexed) →
      expr.Normal ∧ expr.operation? = none
  | .number read, lexed => ⟨(lexed _ (by simp)).number read, rfl⟩
  | .name read, lexed => ⟨(lexed _ (by simp)).name read, rfl⟩
  | .callEmpty named _ _, lexed => ⟨⟨(lexed _ (by simp)).name named, trivial⟩, rfl⟩
  | .call named _ inside _, lexed =>
    ⟨⟨(lexed _ (by simp)).name named,
      inside.normal fun token member => lexed token (by simp [member])⟩, rfl⟩
  | .group _ inside _, lexed =>
    ⟨inside.normal fun token member => lexed token (by simp [member]), rfl⟩

/-- A term is normal, and no sum or difference outside parentheses. -/
theorem Term.normal {words : List Token} {expr : Expr Span} :
    Term words expr → (∀ token ∈ words, token.Lexed) →
      expr.Normal ∧ expr.operation? ∉ [some .add, some .subtract]
  | .factor only, lexed => by
    obtain ⟨normal, single⟩ := only.normal lexed
    exact ⟨normal, by simp [single]⟩
  | .operation first _ tight last, lexed => by
    obtain ⟨left, product⟩ := first.normal fun token member => lexed token (by simp [member])
    obtain ⟨right, single⟩ := last.normal fun token member => lexed token (by simp [member])
    simp only [List.mem_cons, List.not_mem_nil, or_false] at tight
    -- The sign of a product or a quotient is none of a sum or a difference.
    rcases tight with rfl | rfl
    · exact ⟨⟨left, right, fun _ => ⟨product, single⟩, by simp⟩, by simp [Expr.operation?]⟩
    · exact ⟨⟨left, right, fun _ => ⟨product, single⟩, by simp⟩, by simp [Expr.operation?]⟩

/-- An expression is normal. -/
theorem Sum.normal {words : List Token} {expr : Expr Span} :
    Sum words expr → (∀ token ∈ words, token.Lexed) → expr.Normal
  | .term only, lexed => (only.normal lexed).1
  | .operation first _ loose last, lexed => by
    have left := first.normal fun token member => lexed token (by simp [member])
    obtain ⟨right, term⟩ := last.normal fun token member => lexed token (by simp [member])
    simp only [List.mem_cons, List.not_mem_nil, or_false] at loose
    -- The right operand is a term, and the left one may be anything.
    rcases loose with rfl | rfl
    · exact ⟨left, right, by simp, fun _ => term⟩
    · exact ⟨left, right, by simp, fun _ => term⟩

/-- Arguments are normal. -/
theorem Arguments.normal {words : List Token} {args : List (Expr Span)} :
    Arguments words args → (∀ token ∈ words, token.Lexed) → Expr.NormalAll args
  | .one only, lexed => ⟨only.normal lexed, trivial⟩
  | .more first _ last, lexed =>
    Expr.normalAll_append (first.normal fun token member => lexed token (by simp [member]))
      (last.normal fun token member => lexed token (by simp [member]))

end

/-- A statement is normal. -/
theorem Step.normal {words : List Token} {statement : Statement Span}
    (step : Step words statement) (lexed : ∀ token ∈ words, token.Lexed) : statement.Normal := by
  -- The target is an identifier, and the expression is made of lexemes as well.
  cases step with
  | assign named gets inside closes =>
    exact ⟨(lexed _ (by simp)).name named,
      inside.normal fun token member => lexed token (by simp [member])⟩
  | returns leaves inside closes =>
    exact inside.normal fun token member => lexed token (by simp [member])

/-- Statements are normal. -/
theorem Steps.normal {words : List Token} {statements : List (Statement Span)}
    (steps : Steps words statements) (lexed : ∀ token ∈ words, token.Lexed) :
    ∀ statement ∈ statements, statement.Normal := by
  -- The last statement has its own tokens behind those of the others.
  induction steps with
  | none => simp
  | more first last ih =>
    intro statement member
    rcases List.mem_append.mp member with earlier | here
    · exact ih (fun token listed => lexed token (by simp [listed])) statement earlier
    · rw [List.mem_singleton] at here
      subst here
      exact last.normal fun token listed => lexed token (by simp [listed])

/-- Parameters have names. -/
theorem Parameters.normal {words : List Token} {params : List (Parameter Span)}
    (listed : Parameters words params) (lexed : ∀ token ∈ words, token.Lexed) :
    ∀ param ∈ params, IsName param.name := by
  -- Each parameter is named by an identifier among the tokens.
  induction listed with
  | one named =>
    intro param member
    rw [List.mem_singleton] at member
    subst member
    exact (lexed _ (by simp)).name named
  | more first divides named ih =>
    intro param member
    rcases List.mem_append.mp member with earlier | here
    · exact ih (fun token inside => lexed token (by simp [inside])) param earlier
    · rw [List.mem_singleton] at here
      subst here
      exact (lexed _ (by simp)).name named

/-- A declared function is normal. -/
theorem FunctionDeclaration.normal {words : List Token} {function : Function Span}
    (declared : FunctionDeclaration words function) (lexed : ∀ token ∈ words, token.Lexed) :
    function.Normal := by
  -- The parts of a declaration are read from some of its tokens.
  cases declared with
  | mk starts named opens listed closes bodyOpens steps bodyCloses =>
    refine ⟨(lexed _ (by simp)).name named, ?_,
      steps.normal fun token member => lexed token (by simp [member])⟩
    cases listed with
    | none => simp
    | some params => exact params.normal fun token member => lexed token (by simp [member])

/-- A declared constant is normal. -/
theorem ConstantDeclaration.normal {words : List Token} {constant : Constant Span}
    (declared : ConstantDeclaration words constant) (lexed : ∀ token ∈ words, token.Lexed) :
    constant.Normal := by
  -- The name is an identifier, and the value a number.
  cases declared with
  | mk named gets read closes =>
    exact ⟨(lexed _ (by simp)).name named, (lexed _ (by simp)).number read⟩

/-- Declarations are normal. -/
theorem Declarations.normal {words : List Token} {constants : List (Constant Span)}
    {functions : List (Function Span)} (declared : Declarations words constants functions)
    (lexed : ∀ token ∈ words, token.Lexed) :
    (∀ constant ∈ constants, constant.Normal) ∧ ∀ function ∈ functions, function.Normal := by
  -- The declaration behind the others adds to one of the two lists.
  induction declared with
  | none => simp
  | constant first last ih =>
    obtain ⟨earlier, functions⟩ := ih fun token inside => lexed token (by simp [inside])
    have here := last.normal fun token inside => lexed token (by simp [inside])
    exact ⟨List.forall_mem_append.mpr ⟨earlier, by simpa using here⟩, functions⟩
  | function first last ih =>
    obtain ⟨constants, earlier⟩ := ih fun token inside => lexed token (by simp [inside])
    have here := last.normal fun token inside => lexed token (by simp [inside])
    exact ⟨constants, List.forall_mem_append.mpr ⟨earlier, by simpa using here⟩⟩

end Grammar

/-- Every program that is read from a text is normal. -/
theorem Program.normal_of_parse {file text : String} {program : Program Span}
    (parsed : Program.parse file text = .ok program) : program.Normal := by
  -- All words of the sentence are tokens of the text.
  obtain ⟨tokens, scanned, declared⟩ := Program.declared_of_parse parsed
  obtain ⟨constants, functions⟩ := declared.normal fun token member =>
    Token.lexed_of_scan scanned ((List.takeWhile_sublist _).subset member)
  exact ⟨constants, functions⟩

end DoubleLang
