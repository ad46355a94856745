import DoubleLang.Proofs.Object.StackDiscipline

/-!
Where the instructions of a function come from.

The code of an expression stands behind the code of all that comes before it, and its literals are
numbered behind those before it. So each instruction is told by the code in front of it: it belongs
to one expression, keeps a value in the frame, or names nothing of the program.
-/

namespace DoubleLang

variable {α : Type}

/-- An operand that names nothing of a program and no cell of a frame. -/
def Operand.Nameless : Operand → Prop
  | .register _ => True
  | .immediate _ => True
  | .memory .rsp (.bytes _) => True
  | _ => False

/-- An instruction that calls nothing, and has no operand with a name. -/
structure Instruction.Nameless (instruction : Instruction) : Prop where
  calls_not : instruction.mnemonic ≠ .callq
  operands : ∀ operand ∈ instruction.operands, operand.Nameless

/-- Expressions in two parts have the literals of both. -/
private theorem Expr.literalsOfAll_append (before after : List (Expr α)) :
    Expr.literalsOfAll (before ++ after) =
      Expr.literalsOfAll before ++ Expr.literalsOfAll after := by
  -- The first part is taken off expression by expression.
  induction before with
  | nil => rfl
  | cons arg rest ih => simp [Expr.literalsOfAll, ih]

/-- Expressions in two parts have as many literals as both. -/
private theorem Expr.literalCountOfAll_append (before after : List (Expr α)) :
    Expr.literalCountOfAll (before ++ after) =
      Expr.literalCountOfAll before + Expr.literalCountOfAll after := by
  simp only [← Expr.length_literalsOfAll, literalsOfAll_append, List.length_append]

/-- Expressions in two parts read the names of both. -/
private theorem Expr.namesOfAll_append (before after : List (Expr α)) :
    Expr.namesOfAll (before ++ after) = Expr.namesOfAll before ++ Expr.namesOfAll after := by
  -- The first part is taken off expression by expression.
  induction before with
  | nil => rfl
  | cons arg rest ih => simp [Expr.namesOfAll, ih]

namespace Emission

/-- An expression of a live statement with code: the code in front of its own, and the number of its
first literal. -/
inductive Occurs (frame : Frame) (function : Function α) :
    List Instruction → Nat → Expr α → Prop where
  | value {earlier later : List (Statement α)} {tree : Statement α} :
      function.live = earlier ++ tree :: later → hasCode frame tree = true →
        Occurs frame function (opening frame ++ statements function.name frame 0 earlier)
          (earlier.flatMap (·.value.literals)).length tree.value
  | left {front : List Instruction} {number : Nat} {note : α} {op : BinaryOp}
      {left right : Expr α} :
      Occurs frame function front number (.binary note op left right) →
        Occurs frame function front number left
  | right {front : List Instruction} {number : Nat} {note : α} {op : BinaryOp}
      {left right : Expr α} :
      Occurs frame function front number (.binary note op left right) →
        Occurs frame function (front ++ (expr function.name frame number left ++ spill))
          (number + left.literalCount) right
  | arg {front : List Instruction} {number : Nat} {note : α} {callee : String}
      {before after : List (Expr α)} {arg : Expr α} :
      Occurs frame function front number (.call note callee (before ++ arg :: after)) →
        Occurs frame function (front ++ spilled function.name frame number before)
          (number + Expr.literalCountOfAll before) arg
  | group {front : List Instruction} {number : Nat} {note : α} {inner : Expr α} :
      Occurs frame function front number (.group note inner) →
        Occurs frame function front number inner

/-- What an instruction behind some code of a function is for. -/
inductive Arises (frame : Frame) (function : Function α) :
    List Instruction → Instruction → Prop where
  /-- A literal is loaded from its entry in the pool. -/
  | literal {front : List Instruction} {number : Nat} {note : α} {text : String} :
      Occurs frame function front number (.literal note text) →
        Arises frame function front (load (symbol (PoolName.entry function.name number)))
  /-- A name is loaded from where it is found. -/
  | name {front : List Instruction} {number : Nat} {note : α} {read : String} :
      Occurs frame function front number (.name note read) →
        Arises frame function front (load (place frame read))
  /-- A function is called when the arguments are on the stack and in their registers. -/
  | call {front : List Instruction} {number : Nat} {note : α} {callee : String}
      {args : List (Expr α)} :
      Occurs frame function front number (.call note callee args) →
        Arises frame function
          (front ++ (spilled function.name frame number args ++ loads args.length))
          ⟨.callq, [.label callee]⟩
  /-- A parameter from a register is kept in the frame. -/
  | arrival {front : List Instruction} {arrival : Frame.Arrival} :
      arrival ∈ frame.arrivals →
        Arises frame function front
          ⟨.movsd, [double arrival.register, frameCell arrival.offset]⟩
  /-- A value is brought to where the target of a live assignment is found. -/
  | target {front : List Instruction} {note : α} {target : String} {value : Expr α} :
      .assign note target value ∈ function.live → target ∈ frame.reads →
        Arises frame function front ⟨.movsd, [double 0, place frame target]⟩
  /-- Registers and the stack are moved, and nothing of the program is named. -/
  | nameless {front : List Instruction} {instruction : Instruction} :
      instruction.Nameless → Arises frame function front instruction

/-- An instruction with two operands and no names. -/
private theorem nameless_pair {mnemonic : Mnemonic} {first second : Operand}
    (plain : mnemonic ≠ .callq)
    (one : first.Nameless) (other : second.Nameless) :
    Instruction.Nameless ⟨mnemonic, [first, second]⟩ :=
  ⟨plain, by simp [one, other]⟩

/-- Keeping a value on the stack names nothing. -/
private theorem nameless_of_mem_spill {instruction : Instruction} (member : instruction ∈ spill) :
    instruction.Nameless := by
  -- One instruction moves the stack pointer, the other one stores a register there.
  simp only [spill, List.mem_cons, List.not_mem_nil, or_false] at member
  rcases member with rfl | rfl
  · exact nameless_pair (by decide) trivial trivial
  · exact nameless_pair (by decide) trivial trivial

/-- Combining the top of the stack with a value names nothing. -/
private theorem nameless_of_mem_combine (op : BinaryOp) {instruction : Instruction}
    (member : instruction ∈ combine op) : instruction.Nameless := by
  -- All four work on registers and the stack; only the mnemonic depends on the operation.
  simp only [combine, List.mem_cons, List.not_mem_nil, or_false] at member
  rcases member with rfl | rfl | rfl | rfl
  · exact nameless_pair (by decide) trivial trivial
  · exact nameless_pair (by decide) trivial trivial
  · exact nameless_pair (by decide) trivial trivial
  · exact nameless_pair (by cases op <;> decide) trivial trivial

/-- Loading arguments from the stack names nothing. -/
private theorem nameless_of_mem_loads (count : Nat) {instruction : Instruction}
    (member : instruction ∈ loads count) : instruction.Nameless := by
  -- Every argument is loaded from its place on the stack to its register.
  obtain ⟨register, -, rfl⟩ := List.mem_map.mp member
  exact nameless_pair (by decide) trivial trivial

/-- Giving up the arguments on the stack names nothing. -/
private theorem nameless_of_mem_drops (count : Nat) {instruction : Instruction}
    (member : instruction ∈ drops count) : instruction.Nameless := by
  -- Without arguments there is nothing to give up.
  rw [drops] at member
  split at member
  · cases member
  · rw [List.mem_singleton.mp member]
    exact nameless_pair (by decide) trivial trivial

/-- Leaving a function names nothing. -/
private theorem nameless_of_mem_closing {instruction : Instruction}
    (member : instruction ∈ closing) :
    instruction.Nameless := by
  -- Neither of the two has an operand.
  simp only [closing, List.mem_cons, List.not_mem_nil, or_false] at member
  rcases member with rfl | rfl
  · exact ⟨by decide, by simp⟩
  · exact ⟨by decide, by simp⟩

/-- An instruction alone stands behind nothing. -/
private theorem split_single {single instruction : Instruction} {front rest : List Instruction}
    (same : [single] = front ++ instruction :: rest) : front = [] ∧ instruction = single := by
  -- A second instruction would have to come from somewhere.
  cases front with
  | nil => exact ⟨rfl, (List.cons.inj same).1.symm⟩
  | cons first front => simp at same

/-- The code of arguments in two parts; the second is numbered behind the literals of the first. -/
private theorem spilled_append (function : String) (frame : Frame) (number : Nat)
    (before after : List (Expr α)) :
    spilled function frame number (before ++ after) =
      spilled function frame number before ++
        spilled function frame (number + Expr.literalCountOfAll before) after := by
  -- Numbers go up by the literals of each argument on the way to the second part.
  induction before generalizing number with
  | nil => rfl
  | cons arg rest ih =>
    simp only [List.cons_append, spilled, ih, Expr.literalCountOfAll, Nat.add_assoc,
      List.append_assoc]

section Code

variable {frame : Frame} {function : Function α}

mutual

/-- Every instruction of an expression is for a part of it, or names nothing. -/
private theorem arises_of_expr : ∀ (tree : Expr α) {front : List Instruction} {number : Nat},
    Occurs frame function front number tree → ∀ {done rest : List Instruction}
      {instruction : Instruction}, expr function.name frame number tree =
        done ++ instruction :: rest → Arises frame function (front ++ done) instruction
  | .literal _ _, _, _, occurs, _, _, _, same => by
    obtain ⟨rfl, rfl⟩ := split_single same
    rw [List.append_nil]
    exact .literal occurs
  | .name _ _, _, _, occurs, _, _, _, same => by
    obtain ⟨rfl, rfl⟩ := split_single same
    rw [List.append_nil]
    exact .name occurs
  | .binary _ op left right, front, _, occurs, done, _, _, same => by
    -- The instruction is in the left operand, in the right one, or between or behind them.
    rw [expr] at same
    rcases split_append same with ⟨_, here⟩ | ⟨behind, rfl, later⟩
    · exact arises_of_expr left occurs.left here
    rcases split_append later with ⟨_, here⟩ | ⟨behind, rfl, last⟩
    · exact .nameless (nameless_of_mem_spill (by simp [here]))
    rcases split_append last with ⟨_, here⟩ | ⟨behind, rfl, here⟩
    · have arises := arises_of_expr right occurs.right here
      simpa only [List.append_assoc] using arises
    · exact .nameless (nameless_of_mem_combine op (by simp [here]))
  | .call _ callee args, front, number, occurs, done, _, _, same => by
    -- The instruction is in the code of the arguments, or in that of the call itself.
    rw [expr, call_eq] at same
    rcases split_append same with ⟨_, here⟩ | ⟨behind, rfl, later⟩
    · exact arises_of_spilled args [] occurs here
    rcases split_append later with ⟨_, here⟩ | ⟨behind, rfl, calls⟩
    · exact .nameless (nameless_of_mem_loads args.length (by simp [here]))
    cases behind with
    | nil =>
      obtain ⟨rfl, -⟩ := List.cons.inj calls
      rw [List.append_nil]
      exact .call occurs
    | cons first behind =>
      obtain ⟨-, here⟩ := List.cons.inj calls
      exact .nameless (nameless_of_mem_drops args.length (by simp [here]))
  | .group _ inner, _, _, occurs, _, _, _, same => by
    rw [expr] at same
    exact arises_of_expr inner occurs.group same

/-- Every instruction of the later arguments of a call is for a part of one of them, or names
nothing. -/
private theorem arises_of_spilled : ∀ (after before : List (Expr α)) {front : List Instruction}
    {number : Nat} {note : α} {callee : String},
    Occurs frame function front number (.call note callee (before ++ after)) →
      ∀ {done rest : List Instruction} {instruction : Instruction},
        spilled function.name frame (number + Expr.literalCountOfAll before) after =
          done ++ instruction :: rest →
        Arises frame function (front ++ (spilled function.name frame number before ++ done))
          instruction
  | [], _, _, _, _, _, _, _, _, _, same => by simp [spilled] at same
  | arg :: after, before, front, number, note, callee, occurs, done, _, _, same => by
    -- The first argument counts as one of the earlier ones for those behind it.
    rw [spilled] at same
    rcases split_append same with ⟨_, here⟩ | ⟨behind, rfl, later⟩
    · have arises := arises_of_expr arg occurs.arg here
      rwa [List.append_assoc] at arises
    -- Behind its code come the two instructions that keep its value.
    rcases split_append later with ⟨_, here⟩ | ⟨behind, rfl, here⟩
    · exact .nameless (nameless_of_mem_spill (by simp [here]))
    · have occurs : Occurs frame function front number
          (.call note callee ((before ++ [arg]) ++ after)) := by
        rwa [List.append_assoc]
      have counted : number + Expr.literalCountOfAll before + arg.literalCount =
          number + Expr.literalCountOfAll (before ++ [arg]) := by
        simp [Expr.literalCountOfAll_append, Expr.literalCountOfAll, Nat.add_assoc]
      rw [counted] at here
      have arises := arises_of_spilled after (before ++ [arg]) occurs here
      simpa only [spilled_append, spilled, List.append_nil, List.append_assoc] using arises

end

/-- Every instruction of a live statement is for a part of its expression, keeps its value, or names
nothing. -/
private theorem arises_of_statement {earlier later : List (Statement α)} {tree : Statement α}
    (split : function.live = earlier ++ tree :: later) (coded : hasCode frame tree = true)
    {done rest : List Instruction} {instruction : Instruction}
    (same : statement function.name frame (earlier.flatMap (·.value.literals)).length tree =
      done ++ instruction :: rest) :
    Arises frame function
      (opening frame ++ statements function.name frame 0 earlier ++ done) instruction := by
  -- Parts of the expression occur in the statement from its start on.
  have occurs : Occurs frame function _ _ tree.value := .value split coded
  cases tree with
  | returns note value => exact arises_of_expr value occurs same
  | assign note target value =>
    rcases split_append same with ⟨_, here⟩ | ⟨behind, rfl, here⟩
    · exact arises_of_expr value occurs here
    · -- Behind the expression there is only the instruction that keeps its value.
      obtain ⟨rfl, rfl⟩ := split_single here
      have member : .assign note target value ∈ function.live := by simp [split]
      exact .target member (by simpa [hasCode] using coded)

/-- Every instruction of the later live statements belongs to one of them. -/
private theorem arises_of_statements (earlier : List (Statement α)) {live : List (Statement α)}
    (split : function.live = earlier ++ live) {done rest : List Instruction}
    {instruction : Instruction}
    (same : statements function.name frame (earlier.flatMap (·.value.literals)).length live =
      done ++ instruction :: rest) :
    Arises frame function
      (opening frame ++ (statements function.name frame 0 earlier ++ done)) instruction := by
  -- The first statement counts as one of the earlier ones for those behind it.
  induction live generalizing earlier done with
  | nil => simp [statements] at same
  | cons first later ih =>
    have onward : function.live = (earlier ++ [first]) ++ later := by simp [split]
    have counted : (earlier.flatMap (·.value.literals)).length + first.value.literalCount =
        ((earlier ++ [first]).flatMap (·.value.literals)).length := by
      simp [Expr.length_literals]
    have code := statements_append function.name frame 0 earlier [first]
    simp only [statements, Nat.zero_add, List.append_nil] at code
    rw [statements, counted] at same
    by_cases coded : hasCode frame first = true
    · rw [if_pos coded] at same code
      rcases split_append same with ⟨_, here⟩ | ⟨behind, rfl, here⟩
      · have arises := arises_of_statement split coded here
        rwa [List.append_assoc] at arises
      · have arises := ih _ onward here
        rwa [code, List.append_assoc] at arises
    · -- A statement without code leaves the front as it is.
      rw [if_neg coded] at same code
      have arises := ih _ onward same
      rwa [code, List.append_nil] at arises

/-- Every instruction that opens a frame keeps a parameter or names nothing. -/
private theorem arises_of_mem_opening {front : List Instruction} {instruction : Instruction}
    (member : instruction ∈ opening frame) : Arises frame function front instruction := by
  -- The frame is linked first, and the parameters in registers are stored behind that.
  unfold opening at member
  rcases List.mem_append.mp member with linking | keeping
  · simp only [List.mem_cons, List.not_mem_nil, or_false] at linking
    rcases linking with rfl | rfl
    · exact .nameless ⟨by decide, by simp [rbp, Operand.Nameless]⟩
    · exact .nameless (nameless_pair (by decide) trivial trivial)
  · -- A frame without size stores nothing.
    split at keeping
    · cases keeping
    rcases List.mem_cons.mp keeping with rfl | arriving
    · exact .nameless (nameless_pair (by decide) trivial trivial)
    · obtain ⟨arrival, listed, rfl⟩ := List.mem_map.mp arriving
      exact .arrival listed

/-- Every instruction of a function has its purpose. -/
theorem arises_of_code {front rest : List Instruction} {instruction : Instruction}
    (same : opening frame ++ (statements function.name frame 0 function.live ++ closing) =
      front ++ instruction :: rest) : Arises frame function front instruction := by
  -- An instruction stands in the opening, in a statement or in the closing.
  rcases split_append same with ⟨_, here⟩ | ⟨behind, rfl, later⟩
  · exact arises_of_mem_opening (by simp [here])
  rcases split_append later with ⟨_, here⟩ | ⟨behind, rfl, here⟩
  · exact arises_of_statements [] rfl here
  · exact .nameless (nameless_of_mem_closing (by simp [here]))

namespace Occurs

variable {front : List Instruction} {number : Nat} {node : Expr α}

/-- An expression with code is part of a live statement: it stands behind the code of those before,
and reads no other names. -/
theorem exists_statement (occurs : Occurs frame function front number node) :
    ∃ earlier tree later, function.live = earlier ++ tree :: later ∧
      hasCode frame tree = true ∧
      opening frame ++ statements function.name frame 0 earlier <+: front ∧
      node.names ⊆ tree.value.names := by
  -- A part of an expression has only names of the whole, and more code in front of it.
  induction occurs with
  | value split coded => exact ⟨_, _, _, split, coded, List.prefix_refl _, List.Subset.refl _⟩
  | left _ ih =>
    obtain ⟨earlier, tree, later, split, coded, front, names⟩ := ih
    rw [Expr.names, List.append_subset] at names
    exact ⟨earlier, tree, later, split, coded, front, names.1⟩
  | right _ ih =>
    obtain ⟨earlier, tree, later, split, coded, front, names⟩ := ih
    rw [Expr.names, List.append_subset] at names
    exact ⟨earlier, tree, later, split, coded, front.trans (List.prefix_append _ _), names.2⟩
  | arg _ ih =>
    obtain ⟨earlier, tree, later, split, coded, front, names⟩ := ih
    rw [Expr.names, Expr.namesOfAll_append, Expr.namesOfAll, List.append_subset,
      List.append_subset] at names
    exact ⟨earlier, tree, later, split, coded, front.trans (List.prefix_append _ _), names.2.1⟩
  | group _ ih => exact ih

/-- The literals of an expression with code stand among those of the live statements, from its
number on. -/
theorem exists_literals (occurs : Occurs frame function front number node) :
    ∃ before after, function.live.flatMap (·.value.literals) = before ++ (node.literals ++ after) ∧
      before.length = number := by
  -- The literals in front of a part are those in front of the whole and those of earlier parts.
  induction occurs with
  | @value earlier later tree split _ =>
    refine ⟨earlier.flatMap (·.value.literals), later.flatMap (·.value.literals), ?_, rfl⟩
    rw [split, List.flatMap_append, List.flatMap_cons]
  | @left _ _ _ _ left right _ ih =>
    obtain ⟨before, after, literals, counted⟩ := ih
    refine ⟨before, right.literals ++ after, ?_, counted⟩
    rw [literals, Expr.literals, List.append_assoc]
  | @right _ _ _ _ left right _ ih =>
    obtain ⟨before, after, literals, counted⟩ := ih
    refine ⟨before ++ left.literals, after, ?_, ?_⟩
    · rw [literals, Expr.literals, List.append_assoc, List.append_assoc]
    · rw [List.length_append, counted, Expr.length_literals]
  | @arg _ _ _ _ earlier later arg _ ih =>
    obtain ⟨before, after, literals, counted⟩ := ih
    refine ⟨before ++ Expr.literalsOfAll earlier, Expr.literalsOfAll later ++ after, ?_, ?_⟩
    · rw [literals, Expr.literals, Expr.literalsOfAll_append, Expr.literalsOfAll]
      simp only [List.append_assoc]
    · rw [List.length_append, counted, Expr.length_literalsOfAll]
  | group _ ih => exact ih

end Occurs

end Code

end Emission

end DoubleLang
