import DoubleLang.Proofs.Object.Copies
import DoubleLang.Proofs.Program.Notes

/-! Storage, code and data of a program have nothing of the notes in its tree. -/

namespace DoubleLang

variable {α β : Type} (change : α → β)

mutual

/-- An expression with other notes is a copy. -/
theorem Expr.copy_mapNotes : ∀ expr : Expr α, expr.Copy id (expr.mapNotes change)
  | .literal _ _ => .literal
  | .name _ _ => .name
  | .binary _ _ left right => .binary (copy_mapNotes left) (copy_mapNotes right)
  | .call _ _ args => .call (copyOfAll_mapNotes args)
  | .group _ inner => .group (copy_mapNotes inner)

/-- Expressions in a row with other notes are copies. -/
private theorem Expr.copyOfAll_mapNotes : ∀ args : List (Expr α),
    Expr.CopyOfAll id args (Expr.mapNotesOfAll change args)
  | [] => .nil
  | arg :: rest => .cons (copy_mapNotes arg) (copyOfAll_mapNotes rest)

end

/-- A function with other notes is a copy. -/
theorem Function.copy_mapNotes (function : Function α) :
    function.Copy id (function.mapNotes change) := by
  -- Parameters keep their names, and statements their form.
  have params : (function.mapNotes change).params.map (·.name) =
      (function.params.map (·.name)).map id := by
    rw [Function.params_mapNotes, Parameter.names_mapNotes, List.map_id]
  refine ⟨rfl, params, ?_⟩
  rw [Function.body_mapNotes, List.forall₂_map_right_iff, List.forall₂_same]
  intro statement _
  cases statement with
  | assign note target value => exact .assign (value.copy_mapNotes change)
  | returns note value => exact .returns (value.copy_mapNotes change)

/-- A function has the same code. -/
theorem Emission.routine_mapNotes (env : Environment) (function : Function α) :
    routine env (function.mapNotes change) = routine env function :=
  routine_of_copy env (function.copy_mapNotes change)

/-- A function has the same pool. -/
theorem Emission.pool_mapNotes (function : Function α) :
    pool (function.mapNotes change) = pool function :=
  pool_copy (function.copy_mapNotes change)

/-- A program is compiled to the same object, whatever the notes of its tree are. -/
theorem Object.ofProgram_mapNotes (env : Environment) (program : Program α) :
    Object.ofProgram env (program.mapNotes change) = Object.ofProgram env program := by
  -- Function by function, for the code of a copy is the code.
  refine Object.ofProgram_of_copies env ?_
  rw [Program.functions_mapNotes, List.forall₂_map_right_iff, List.forall₂_same]
  exact fun function _ => function.copy_mapNotes change

end DoubleLang
