import DoubleLang.Proofs.Program.Words
import DoubleLang.Proofs.Token.Stretch

/-!
Nodes of a syntax tree and the tokens they are read from.

A node is read from tokens that stand together, and its children are read from parts of these, one
behind another. Its span goes from the first of its tokens to the last.
-/

namespace DoubleLang

/-- A node of a syntax tree below the program. -/
inductive Node where
  | constant (declared : Constant Span)
  | function (declared : Function Span)
  | parameter (declared : Parameter Span)
  | statement (step : Statement Span)
  | expression (expr : Expr Span)

namespace Node

/-- The span that a node carries. -/
def span : Node → Span
  | .constant declared => declared.note
  | .function declared => declared.note
  | .parameter declared => declared.note
  | .statement (.assign note _ _) => note
  | .statement (.returns note _) => note
  | .expression expr => expr.note

/-- The nodes right below a node, in the order of the source. -/
def children : Node → List Node
  | .constant _ => []
  | .function declared => declared.params.map .parameter ++ declared.body.map .statement
  | .parameter _ => []
  | .statement step => [.expression step.value]
  | .expression (.literal _ _) => []
  | .expression (.name _ _) => []
  | .expression (.binary _ _ left right) => [.expression left, .expression right]
  | .expression (.call _ _ args) => args.map .expression
  | .expression (.group _ inner) => [.expression inner]

/-- Tokens are read as a node. -/
def ReadFrom : Node → List Token → Prop
  | .constant declared, words => Grammar.ConstantDeclaration words declared
  | .function declared, words => Grammar.FunctionDeclaration words declared
  | .parameter declared, words =>
    ∃ name : Token, words = [name] ∧ name.isIdentifier = true ∧ declared = ⟨name.span, name.text⟩
  | .statement step, words => Grammar.Step words step
  | .expression expr, words => Grammar.Sum words expr

/-- Nodes are read from parts of tokens, one behind another. -/
def ReadInTurn : List Node → List Token → Prop
  | [], _ => True
  | node :: rest, words =>
    ∃ gap own more, words = gap ++ (own ++ more) ∧ node.ReadFrom own ∧ ReadInTurn rest more

end Node

/-- The node of a declaration. -/
def Declaration.node : Declaration Span → Node
  | .constant declared => .constant declared
  | .function declared => .function declared

/-- A node belongs to a program: it is a declaration, or it stands right below a node that belongs
to it. -/
inductive Program.HasNode (program : Program Span) : Node → Prop where
  | constant {declared : Constant Span} (listed : declared ∈ program.constants) :
      HasNode program (.constant declared)
  | function {declared : Function Span} (listed : declared ∈ program.functions) :
      HasNode program (.function declared)
  | child {parent child : Node} (outer : HasNode program parent)
      (listed : child ∈ parent.children) : HasNode program child

namespace Node

/-- Tokens may stand in front. -/
theorem ReadInTurn.behind {nodes : List Node} {words : List Token} (turn : ReadInTurn nodes words)
    (front : List Token) : ReadInTurn nodes (front ++ words) := by
  -- They join what stands in front of the first node.
  cases nodes with
  | nil => trivial
  | cons node rest =>
    obtain ⟨gap, own, more, rfl, read, later⟩ := turn
    exact ⟨front ++ gap, own, more, by simp, read, later⟩

/-- What is read from tokens and what is read from those behind them are read in turn. -/
theorem ReadInTurn.append {nodes others : List Node} {words more : List Token}
    (turn : ReadInTurn nodes words) (later : ReadInTurn others more) :
    ReadInTurn (nodes ++ others) (words ++ more) := by
  -- Tokens left over behind the last of the first nodes stand in front of the others.
  induction nodes generalizing words with
  | nil => exact later.behind words
  | cons node rest ih =>
    obtain ⟨gap, own, tail, rfl, read, behind⟩ := turn
    exact ⟨gap, own, tail ++ more, by simp, read, ih behind⟩

/-- Tokens may stand behind. -/
theorem ReadInTurn.before {nodes : List Node} {words : List Token} (turn : ReadInTurn nodes words)
    (more : List Token) : ReadInTurn nodes (words ++ more) := by
  have both := turn.append (show ReadInTurn [] more from trivial)
  rwa [List.append_nil] at both

/-- One node is read from its tokens. -/
private theorem readInTurn_single (node : Node) {words : List Token} (read : node.ReadFrom words) :
    ReadInTurn [node] words :=
  ⟨[], words, [], by simp, read, trivial⟩

/-- Each of the nodes that are read in turn has tokens of its own. -/
theorem ReadInTurn.of_mem {nodes : List Node} {words : List Token} (turn : ReadInTurn nodes words)
    {node : Node} (listed : node ∈ nodes) :
    ∃ before own after, words = before ++ (own ++ after) ∧ node.ReadFrom own := by
  -- What stands before a later node is the gap, the first node and what lies between.
  induction nodes generalizing words with
  | nil => cases listed
  | cons first rest ih =>
    obtain ⟨gap, own, more, rfl, read, later⟩ := turn
    rcases List.mem_cons.mp listed with rfl | behind
    · exact ⟨gap, own, more, rfl, read⟩
    · obtain ⟨before, inner, after, rfl, found⟩ := ih later behind
      exact ⟨gap ++ (own ++ before), inner, after, by simp, found⟩

end Node

namespace Grammar

open Node

/-- Arguments are read in turn. -/
theorem Arguments.readInTurn {words : List Token} {args : List (Expr Span)} :
    Arguments words args → ReadInTurn (args.map .expression) words
  | .one only => readInTurn_single (.expression _) only
  | .more first divides last => by
    rw [List.map_append]
    exact first.readInTurn.append ((readInTurn_single (.expression _) last).behind [_])

/-- Parameters are read in turn. -/
theorem Parameters.readInTurn {words : List Token} {params : List (Parameter Span)}
    (listed : Parameters words params) : ReadInTurn (params.map .parameter) words := by
  -- A comma stands in front of every parameter but the first.
  have single (name : Token) (named : name.isIdentifier = true) :
      ReadInTurn [.parameter ⟨name.span, name.text⟩] [name] :=
    readInTurn_single _ ⟨name, rfl, named, rfl⟩
  induction listed with
  | one named => exact single _ named
  | more first divides named ih =>
    rw [List.map_append]
    exact ih.append ((single _ named).behind [_])

/-- Statements are read in turn. -/
theorem Steps.readInTurn {words : List Token} {statements : List (Statement Span)}
    (steps : Steps words statements) : ReadInTurn (statements.map .statement) words := by
  -- Each statement is read behind those before it.
  induction steps with
  | none => trivial
  | more first last ih =>
    rw [List.map_append]
    exact ih.append (readInTurn_single (.statement _) last)

/-- Declarations are read in turn, in an order of the program they declare. -/
theorem Declarations.readInTurn {words : List Token} {constants : List (Constant Span)}
    {functions : List (Function Span)} (declared : Declarations words constants functions) :
    ∃ order : List (Declaration Span), order.filterMap Declaration.constant? = constants ∧
      order.filterMap Declaration.function? = functions ∧
      ReadInTurn (order.map Declaration.node) words := by
  -- Every declaration comes in behind those before it, whichever kind these are of.
  induction declared with
  | none => exact ⟨[], rfl, rfl, trivial⟩
  | @constant _ _ _ _ constant _ last ih =>
    obtain ⟨order, rfl, rfl, turn⟩ := ih
    refine ⟨order ++ [.constant constant], by simp [Declaration.constant?],
      by simp [Declaration.function?], ?_⟩
    rw [List.map_append]
    exact turn.append (readInTurn_single (.constant constant) last)
  | @function _ _ _ _ function _ last ih =>
    obtain ⟨order, rfl, rfl, turn⟩ := ih
    refine ⟨order ++ [.function function], by simp [Declaration.constant?],
      by simp [Declaration.function?], ?_⟩
    rw [List.map_append]
    exact turn.append (readInTurn_single (.function function) last)

/-- The operands of an operation are read in turn. -/
private theorem readInTurn_operands {words more : List Token} {left right : Expr Span}
    (first : Sum words left) (sign : Token) (last : Sum more right) :
    ReadInTurn [.expression left, .expression right] (words ++ sign :: more) :=
  (readInTurn_single (.expression left) first).append
    ((readInTurn_single (.expression right) last).behind [sign])

/-- What stands in an expression is read in turn. -/
theorem Sum.readInTurn {words : List Token} {expr : Expr Span} (read : Sum words expr) :
    ReadInTurn (Node.expression expr).children words := by
  -- An expression is an operation of one level or the other, or else a factor.
  cases read with
  | operation first signed loose last => exact readInTurn_operands first _ (.term last)
  | term only =>
    cases only with
    | operation first signed tight last =>
      exact readInTurn_operands (.term first) _ (.term (.factor last))
    | factor only =>
      cases only with
      | number read => trivial
      | name read => trivial
      | callEmpty named opens closes => trivial
      | call named opens inside closes =>
        -- The parentheses and the name of a call belong to the node and to none of its children.
        exact (inside.readInTurn.before [_]).behind [_, _]
      | group opens inside closes =>
        exact ((readInTurn_single (.expression _) inside).before [_]).behind [_]

/-- The parameters of a function are read in turn, if there are any. -/
theorem ParameterList.readInTurn {words : List Token} {params : List (Parameter Span)} :
    ParameterList words params → ReadInTurn (params.map .parameter) words
  | .none => trivial
  | .some listed => listed.readInTurn

end Grammar

/-- The children of a node are read in turn from its tokens. -/
theorem Node.ReadFrom.children {node : Node} {words : List Token} (read : node.ReadFrom words) :
    ReadInTurn node.children words := by
  -- What stands around the children is marks and names of the node itself.
  cases node with
  | constant declared => trivial
  | parameter declared => trivial
  | expression expr => exact Grammar.Sum.readInTurn read
  | statement step =>
    cases read with
    | assign named gets inside closes =>
      exact ((readInTurn_single (.expression _) inside).before [_]).behind [_, _]
    | returns leaves inside closes =>
      exact ((readInTurn_single (.expression _) inside).before [_]).behind [_]
  | function declared =>
    cases read with
    | @mk _ _ _ closing bodyOpening bodyClosing _ _ _ _ _ _ _ listed _ _ steps =>
      have body := (steps.readInTurn.before [bodyClosing]).behind [closing, bodyOpening]
      exact (listed.readInTurn.append body).behind [_, _, _]

namespace Grammar

/-- A factor is bounded by its span. -/
theorem Factor.bounds {words : List Token} {expr : Expr Span} (read : Factor words expr) :
    expr.note.Bounds words := by
  -- A factor is one token, or it has one at each end.
  cases read with
  | number read => exact Span.bounds_single _
  | name read => exact Span.bounds_single _
  | callEmpty named opens closes => exact Span.bounds_outer _ _ [_]
  | call named opens inside closes => exact Span.bounds_outer _ _ (_ :: _)
  | group opens inside closes => exact Span.bounds_outer _ _ _

/-- A term is bounded by its span. -/
theorem Term.bounds {words : List Token} {expr : Expr Span} :
    Term words expr → expr.note.Bounds words
  | .factor only => only.bounds
  | .operation first _ _ last => first.bounds.join _ last.bounds

/-- An expression is bounded by its span. -/
theorem Sum.bounds {words : List Token} {expr : Expr Span} :
    Sum words expr → expr.note.Bounds words
  | .term only => only.bounds
  | .operation first _ _ last => first.bounds.join _ last.bounds

end Grammar

/-- The tokens of a node are bounded by its span. -/
theorem Node.ReadFrom.bounds {node : Node} {words : List Token} (read : node.ReadFrom words) :
    node.span.Bounds words := by
  -- A node starts with its first token and ends with its last, by how it is derived.
  cases node with
  | constant declared =>
    cases read
    exact Span.bounds_outer _ _ [_, _]
  | parameter declared =>
    obtain ⟨name, rfl, -, rfl⟩ := read
    exact Span.bounds_single name
  | expression expr => exact Grammar.Sum.bounds read
  | statement step =>
    cases read with
    | assign named gets inside closes => exact Span.bounds_outer _ _ (_ :: _)
    | returns leaves inside closes => exact Span.bounds_outer _ _ _
  | function declared =>
    cases read with
    | @mk keyword name opening closing bodyOpening bodyClosing words more =>
      -- All but the keyword and the last brace stands between these two.
      have outer := Span.bounds_outer keyword bodyClosing
        (name :: opening :: (words ++ closing :: bodyOpening :: more))
      simpa [Node.span] using outer

/-- Nodes that are read in turn from tokens in order have spans in order. -/
theorem Node.ReadInTurn.pairwise {nodes : List Node} {words : List Token}
    (turn : ReadInTurn nodes words) (order : Token.InOrder words) :
    nodes.Pairwise fun first second => first.span.Precedes second.span := by
  -- The first node is compared with all later ones, and those among themselves.
  induction nodes generalizing words with
  | nil => exact .nil
  | cons node rest ih =>
    obtain ⟨gap, own, more, rfl, read, later⟩ := turn
    have split : gap ++ (own ++ more) = (gap ++ own) ++ (more ++ []) := by simp
    have behind : Token.InOrder more := (split ▸ order).part
    refine List.pairwise_cons.mpr ⟨fun second listed => ?_, ih later behind⟩
    -- The last token of the node stands in front of the first one of a later node.
    obtain ⟨before, inner, after, rfl, found⟩ := later.of_mem listed
    obtain ⟨_, last, _, closes, ends⟩ := read.bounds
    obtain ⟨first, _, opens, _, starts⟩ := found.bounds
    have tail := (List.pairwise_append.mp order.apart).2.1
    have apart : last.span.Precedes first.span := (List.pairwise_append.mp tail).2.2 last
      (List.mem_of_getLast? closes) first (by simp [List.mem_of_head? opens])
    rw [ends, starts]
    exact apart

/-- Every node of a program is read from tokens that stand together. -/
theorem Program.HasNode.readFrom {program : Program Span} {words : List Token}
    (declared : Grammar.Declarations words program.constants program.functions) {node : Node}
    (listed : program.HasNode node) :
    ∃ before own after, words = before ++ (own ++ after) ∧ node.ReadFrom own := by
  -- All declarations are read in turn from the tokens.
  obtain ⟨order, constants, functions, turn⟩ := declared.readInTurn
  -- A declaration is found in the order, and any other node inside its parent.
  induction listed with
  | constant listed =>
    apply turn.of_mem
    rw [← constants] at listed
    obtain ⟨item, member, same⟩ := List.mem_filterMap.mp listed
    cases item with
    | constant declared => cases same; exact List.mem_map.mpr ⟨_, member, rfl⟩
    | function declared => cases same
  | function listed =>
    apply turn.of_mem
    rw [← functions] at listed
    obtain ⟨item, member, same⟩ := List.mem_filterMap.mp listed
    cases item with
    | constant declared => cases same
    | function declared => cases same; exact List.mem_map.mpr ⟨_, member, rfl⟩
  | child outer listed ih =>
    -- The tokens of a child are some of its parent's.
    obtain ⟨before, own, after, rfl, read⟩ := ih
    obtain ⟨inside, inner, behind, rfl, found⟩ := read.children.of_mem listed
    exact ⟨before ++ inside, inner, behind ++ after, by simp, found⟩

end DoubleLang
