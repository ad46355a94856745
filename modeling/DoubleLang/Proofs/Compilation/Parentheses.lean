import DoubleLang.Proofs.Object.Copies
import DoubleLang.Proofs.Program.Notes
import DoubleLang.Proofs.Program.Reordering

/-!
Programs without their parentheses.

Parentheses decide what the tree of an expression is, and nothing once it is read. The check passes
through them to what they hold, and so do storage, code and data; literals are numbered as before,
also those of statements without code.
-/

namespace DoubleLang

section Tree

variable {α : Type}

mutual

/-- An expression without its parentheses. -/
def Expr.ungroup : Expr α → Expr α
  | .literal note text => .literal note text
  | .name note read => .name note read
  | .binary note op left right => .binary note op left.ungroup right.ungroup
  | .call note callee args => .call note callee (Expr.ungroupOfAll args)
  | .group _ inner => inner.ungroup

/-- Expressions without their parentheses. -/
def Expr.ungroupOfAll : List (Expr α) → List (Expr α)
  | [] => []
  | arg :: rest => arg.ungroup :: Expr.ungroupOfAll rest

end

mutual

/-- Whether an expression has no parentheses. -/
def Expr.isUngrouped : Expr α → Bool
  | .literal _ _ => true
  | .name _ _ => true
  | .binary _ _ left right => left.isUngrouped && right.isUngrouped
  | .call _ _ args => Expr.areUngrouped args
  | .group _ _ => false

/-- Whether expressions have no parentheses. -/
def Expr.areUngrouped : List (Expr α) → Bool
  | [] => true
  | arg :: rest => arg.isUngrouped && Expr.areUngrouped rest

end

/-- A statement without the parentheses of its expression. -/
def Statement.ungroup : Statement α → Statement α
  | .assign note target value => .assign note target value.ungroup
  | .returns note value => .returns note value.ungroup

/-- A function without parentheses in its body. -/
def Function.ungroup (function : Function α) : Function α :=
  { function with body := function.body.map Statement.ungroup }

/-- A program without parentheses in its functions. -/
def Program.ungroup (program : Program α) : Program α :=
  { program with functions := program.functions.map Function.ungroup }

/-- Constants have no parentheses. -/
@[simp] theorem Program.constants_ungroup (program : Program α) :
    program.ungroup.constants = program.constants := rfl

/-- A program loses the parentheses in its functions. -/
@[simp] theorem Program.functions_ungroup (program : Program α) :
    program.ungroup.functions = program.functions.map Function.ungroup := rfl

mutual

/-- No parentheses are left in an expression. -/
private theorem Expr.isUngrouped_ungroup : ∀ expr : Expr α, expr.ungroup.isUngrouped = true
  | .literal _ _ => rfl
  | .name _ _ => rfl
  | .binary _ _ left right => by
    rw [Expr.ungroup, Expr.isUngrouped, isUngrouped_ungroup left, isUngrouped_ungroup right]
    rfl
  | .call _ _ args => by rw [Expr.ungroup, Expr.isUngrouped, areUngrouped_ungroupOfAll args]
  | .group _ inner => by rw [Expr.ungroup, isUngrouped_ungroup inner]

/-- No parentheses are left in expressions in a row. -/
private theorem Expr.areUngrouped_ungroupOfAll : ∀ args : List (Expr α),
    Expr.areUngrouped (Expr.ungroupOfAll args) = true
  | [] => rfl
  | arg :: rest => by
    rw [Expr.ungroupOfAll, Expr.areUngrouped, isUngrouped_ungroup arg,
      areUngrouped_ungroupOfAll rest]
    rfl

end

mutual

/-- An expression without its parentheses is a copy. -/
theorem Expr.copy_ungroup : ∀ expr : Expr α, expr.Copy id expr.ungroup
  | .literal _ _ => .literal
  | .name _ _ => .name
  | .binary _ _ left right => .binary (copy_ungroup left) (copy_ungroup right)
  | .call _ _ args => .call (copyOfAll_ungroup args)
  | .group _ inner => .ungrouped (copy_ungroup inner)

/-- Expressions in a row without their parentheses are copies. -/
private theorem Expr.copyOfAll_ungroup : ∀ args : List (Expr α),
    Expr.CopyOfAll id args (Expr.ungroupOfAll args)
  | [] => .nil
  | arg :: rest => .cons (copy_ungroup arg) (copyOfAll_ungroup rest)

end

/-- Statements without their parentheses are copies. -/
private theorem Statement.copies_ungroup (statements : List (Statement α)) :
    List.Forall₂ (Statement.Copy id) statements (statements.map Statement.ungroup) := by
  -- Statement by statement: each holds one expression.
  rw [List.forall₂_map_right_iff, List.forall₂_same]
  intro statement _
  cases statement with
  | assign note target value => exact .assign value.copy_ungroup
  | returns note value => exact .returns value.copy_ungroup

/-- A function without its parentheses is a copy. -/
theorem Function.copy_ungroup (function : Function α) : function.Copy id function.ungroup :=
  ⟨rfl, (List.map_id _).symm, Statement.copies_ungroup function.body⟩

end Tree

section Rules

/-- A program without its parentheses declares the same names. -/
private theorem Program.sameNames_ungroup (program : Program Span) :
    program.ungroup.SameNames program := by
  -- Names and arities stand outside of all expressions.
  refine ⟨fun name => Iff.rfl, fun name => ?_, fun name => ?_⟩
  · simp [Function.ungroup]
  · rw [Program.functions_ungroup, List.find?_map, Option.map_map]
    rfl

mutual

/-- An expression has the same offences at the same places. -/
theorem Expr.offences_ungroup (program : Program Span) (function : String) (known : List String) :
    ∀ expr : Expr Span,
      expr.ungroup.offences program function known = expr.offences program function known
  | .literal _ _ => rfl
  | .name _ _ => rfl
  | .binary _ _ left right => by
    rw [Expr.ungroup, Expr.offences, offences_ungroup program function known left,
      offences_ungroup program function known right, Expr.offences]
  | .call _ _ args => by
    rw [Expr.ungroup, Expr.offences, (copyOfAll_ungroup args).length_eq,
      offencesOfAll_ungroup program function known args, Expr.offences]
  | .group _ inner => by
    rw [Expr.ungroup, offences_ungroup program function known inner, Expr.offences]

/-- Expressions in a row have the same offences. -/
private theorem Expr.offencesOfAll_ungroup (program : Program Span) (function : String)
    (known : List String) : ∀ args : List (Expr Span),
      Expr.offencesOfAll program function known (Expr.ungroupOfAll args) =
        Expr.offencesOfAll program function known args
  | [] => rfl
  | arg :: rest => by
    rw [Expr.ungroupOfAll, Expr.offencesOfAll, offences_ungroup program function known arg,
      offencesOfAll_ungroup program function known rest, Expr.offencesOfAll]

end

/-- A statement has the same offences behind the same statements. -/
theorem Statement.offences_ungroup (program : Program Span) (function : Function Span)
    (earlier : List (Statement Span)) (statement : Statement Span) :
    statement.ungroup.offences program.ungroup function.ungroup (earlier.map Statement.ungroup) =
      statement.offences program function earlier := by
  -- What is known before a statement are parameters and targets, and those stay.
  have targets : Statement.targets (earlier.map Statement.ungroup) = Statement.targets earlier := by
    rw [Statement.Copy.targets_eq (copies_ungroup earlier), List.map_id]
  rw [Statement.offences_congr program.sameNames_ungroup, Statement.offences, targets,
    Statement.offences]
  cases statement with
  | assign span target value =>
    exact congrArg _ (value.offences_ungroup program function.name _)
  | returns span value => exact value.offences_ungroup program function.name _

namespace Program

open Offence

/-- A program has the same offences at the same places, in the same order. -/
theorem offences_ungroup (program : Program Span) :
    program.ungroup.offences = program.offences := by
  -- Names and parameters are judged as they were, and so are statements.
  have functions : inTurn (Function.nameOffences program.constants) []
      (program.functions.map Function.ungroup) =
        inTurn (Function.nameOffences program.constants) [] program.functions := by
    refine inTurn_congr (fun earlier function => ?_) program.functions
    simp [Function.nameOffences, Function.ungroup, Function.comp_def]
  have params (function : Function Span) : Parameter.offences program.ungroup function.ungroup =
      Parameter.offences program function :=
    Parameter.offences_congr program.sameNames_ungroup function.ungroup
  have bodies (function : Function Span) :
      inTurn (Statement.offences program.ungroup function.ungroup) [] function.ungroup.body =
        inTurn (Statement.offences program function) [] function.body :=
    inTurn_congr (Statement.offences_ungroup program function) function.body
  simp only [offences, constants_ungroup, functions_ungroup, functions, List.flatMap_map, params,
    bodies, List.filterMap_map, Function.comp_def]
  rfl

/-- A program has the same names. -/
private theorem listing_ungroup (program : Program Span) :
    program.ungroup.listing = program.listing := by
  -- Scopes are made of parameters and targets, which stay.
  have scopes (function : Function Span) :
      function.ungroup.scopeBehind function.ungroup.body = function.scopeBehind function.body := by
    rw [function.copy_ungroup.scopeBehind_eq Function.injective_id, Table.rename_id]
  simp only [listing, globals, Table.ofMembers, constants_ungroup, functions_ungroup, List.map_map,
    Function.comp_def, scopes]
  rfl

/-- A program is judged alike. -/
private theorem check_ungroup (program : Program Span) : program.ungroup.check = program.check := by
  rw [check_eq_verdict, offences_ungroup, listing_ungroup, check_eq_verdict]

end Program

end Rules

/-- Parentheses are free. Without them a program of any kind is judged alike, down to the offence,
its wording and its place; and in any environment its functions have the same storage, and it is
compiled to the same code and data, or is not compiled for the same reason. -/
theorem Program.parentheses_free (program : Program Span) :
    (∀ function ∈ program.ungroup.functions, ∀ statement ∈ function.body,
      statement.value.isUngrouped = true) ∧
    program.ungroup.check = program.check ∧
    program.ungroup.environment = program.environment ∧
    ∀ env : Environment,
      List.Forall₂ (fun function ungrouped => ungrouped.name = function.name ∧
          Frame.ofFunction env ungrouped = Frame.ofFunction env function)
        program.functions program.ungroup.functions ∧
      Object.ofProgram env program.ungroup = Object.ofProgram env program := by
  -- Each function without its parentheses is a copy of itself.
  have copied : List.Forall₂ (Function.Copy id) program.functions program.ungroup.functions := by
    rw [functions_ungroup, List.forall₂_map_right_iff, List.forall₂_same]
    exact fun function _ => function.copy_ungroup
  refine ⟨?_, program.check_ungroup, ?_, fun env => ⟨?_, Object.ofProgram_of_copies env copied⟩⟩
  · intro function member statement listed
    obtain ⟨original, -, rfl⟩ := List.mem_map.mp member
    obtain ⟨tree, -, rfl⟩ := List.mem_map.mp listed
    cases tree with
    | assign span target value => exact value.isUngrouped_ungroup
    | returns span value => exact value.isUngrouped_ungroup
  · rw [Program.environment, Program.check_ungroup, Program.environment]
  · exact copied.imp fun function ungrouped same =>
      ⟨same.name, Frame.ofFunction_of_copy env same⟩

end DoubleLang
