import DoubleLang.Object.Emission
import DoubleLang.Proofs.Frame.Copies

/-!
Code and data of copies.

Code has the places of names and not the names, but for those of data. So a copy of a function has
the same code if it keeps the names that are found among the data.
-/

namespace DoubleLang

variable {α β : Type} {change : String → String}

/-- A missing slot, under its changed name. -/
def MissingSlot.rename (change : String → String) (missing : MissingSlot) : MissingSlot :=
  { missing with name := change missing.name }

namespace Emission

mutual

/-- A copy of an expression has the same code, if its names are found at the same places. -/
private theorem expr_copy (function : String) {frame other : Frame} :
    ∀ {tree : Expr α} {copy : Expr β} (number : Nat), tree.Copy change copy →
      (∀ name ∈ tree.names, place other (change name) = place frame name) →
        expr function other number copy = expr function frame number tree
  | _, _, _, .literal, _ => rfl
  | _, _, _, .name, placed => by rw [expr, placed _ (List.mem_singleton_self _), expr]
  | _, _, number, .binary left right, placed => by
    rw [Expr.names, List.forall_mem_append] at placed
    rw [expr, expr_copy function number left placed.1, left.literalCount_eq,
      expr_copy function _ right placed.2, expr]
  | _, _, number, .call args, placed => by
    rw [expr, spilled_copy function number args placed, args.length_eq, expr]
  | _, _, number, .group inner, placed => by
    rw [expr, expr_copy function number inner placed, expr]
  | _, _, number, .ungrouped inner, placed => by
    rw [expr_copy function number inner placed, expr]

/-- Copies of arguments have the same code, if their names are found at the same places. -/
private theorem spilled_copy (function : String) {frame other : Frame} :
    ∀ {args : List (Expr α)} {copies : List (Expr β)} (number : Nat),
      Expr.CopyOfAll change args copies →
      (∀ name ∈ Expr.namesOfAll args, place other (change name) = place frame name) →
        spilled function other number copies = spilled function frame number args
  | _, _, _, .nil, _ => rfl
  | _, _, number, .cons first rest, placed => by
    rw [Expr.namesOfAll, List.forall_mem_append] at placed
    rw [spilled, expr_copy function number first placed.1, first.literalCount_eq,
      spilled_copy function _ rest placed.2, spilled]

end

/-- The names of a statement that are found among the data are not changed. -/
def DataKept (change : String → String) (frame : Frame) (tree : Statement α) : Prop :=
  ∀ name ∈ tree.value.names ++ tree.target?.toList,
    place frame name = symbol name → change name = name

section Renamed

variable (injective : Function.Injective change) (frame : Frame)
include injective

/-- A changed name is found where the name was, unless the name of data is changed. -/
theorem place_rename (name : String) (kept : place frame name = symbol name → change name = name) :
    place (frame.rename change) (change name) = place frame name := by
  -- Slots and reads are both kept under changed names.
  simp only [place, Frame.rename, Table.get?_rename injective,
    contains_map_of_injective injective] at kept ⊢
  -- Without a slot, or with one that is not read, the place is under the name itself.
  cases found : frame.slots.get? name with
  | none =>
    simp only [found, forall_const] at kept ⊢
    rw [kept]
  | some offset =>
    simp only [found] at kept ⊢
    split
    · rfl
    · rename_i unread
      rw [if_neg unread] at kept
      rw [kept rfl]

/-- A copy of a statement has code exactly if the statement has. -/
private theorem hasCode_copy {tree : Statement α} {copy : Statement β}
    (copied : tree.Copy change copy) :
    hasCode (frame.rename change) copy = hasCode frame tree := by
  -- Only an assignment may go without code, by what is read of its target.
  cases copied with
  | returns _ => rfl
  | assign _ => exact contains_map_of_injective injective frame.reads _

/-- A copy of a statement has the code of the statement if it keeps the names of data. -/
private theorem statement_copy (function : String) (number : Nat) {tree : Statement α}
    {copy : Statement β}
    (copied : tree.Copy change copy) (kept : DataKept change frame tree) :
    statement function (frame.rename change) number copy =
      statement function frame number tree := by
  -- The places are the same: those of the operands and that of the target.
  have placed (name : String) (member : name ∈ tree.value.names ++ tree.target?.toList) :=
    place_rename injective frame name (kept name member)
  rw [List.forall_mem_append] at placed
  cases copied with
  | returns value => exact expr_copy function number value placed.1
  | assign value =>
    rw [statement, expr_copy function number value placed.1,
      placed.2 _ (List.mem_singleton_self _), statement]

/-- Copies of live statements have the same code. -/
private theorem statements_copy (function : String) {live : List (Statement α)}
    {copies : List (Statement β)} (copied : List.Forall₂ (Statement.Copy change) live copies)
    (kept : ∀ tree ∈ live, hasCode frame tree = true → DataKept change frame tree) (number : Nat) :
    statements function (frame.rename change) number copies =
      statements function frame number live := by
  -- Each statement is numbered by the literals before it, and those are the same.
  induction copied generalizing number with
  | nil => rfl
  | cons first _ ih =>
    rw [List.forall_mem_cons] at kept
    rw [statements, hasCode_copy injective frame first, first.value.literalCount_eq, ih kept.2,
      statements]
    split
    · rename_i coded
      rw [statement_copy injective frame function number first (kept.1 coded)]
    · rfl

/-- If a slot is missing, it is that of the changed name. -/
private theorem missing?_copy {live : List (Statement α)} {copies : List (Statement β)}
    (copied : List.Forall₂ (Statement.Copy change) live copies) :
    missing? (frame.rename change) copies = (missing? frame live).map change := by
  -- Statements with code keep it, so the names they read are changed in order.
  have names : (copies.filter (hasCode (frame.rename change))).flatMap (·.value.names) =
      ((live.filter (hasCode frame)).flatMap (·.value.names)).map change := by
    induction copied with
    | nil => rfl
    | cons first _ ih =>
      rw [List.filter_cons, List.filter_cons, hasCode_copy injective frame first]
      split
      · rw [List.flatMap_cons, List.flatMap_cons, List.map_append, first.value.names_eq, ih]
      · exact ih
  rw [missing?, names, List.find?_map, missing?]
  -- A name is missing by what is read and what has a slot.
  congr 2
  funext name
  simp only [Function.comp_apply, Frame.rename, contains_map_of_injective injective,
    Table.contains_rename injective]

end Renamed

variable {env other : Environment} {function : Function α} {copy : Function β}

/-- A frame is opened in the same way under changed names. -/
private theorem opening_rename (change : String → String) (frame : Frame) :
    opening (frame.rename change) = opening frame := by
  simp only [opening, Frame.rename, List.map_map]
  rfl

/-- A copy of a function that keeps the names of data has the same code. -/
theorem routine_copy (injective : Function.Injective change) (copied : function.Copy change copy)
    (scopes : other.scope copy.name = (env.scope function.name).rename change)
    (kept : ∀ tree ∈ function.live, hasCode (Frame.ofFunction env function) tree = true →
      DataKept change (Frame.ofFunction env function) tree) :
    routine other copy = (routine env function).mapError (MissingSlot.rename change) := by
  -- The frame, the missing slot and the code of the body are those of the function.
  simp only [routine, Frame.ofFunction_copy injective copied scopes,
    missing?_copy injective _ copied.live, statements_copy injective _ _ copied.live kept,
    opening_rename, copied.name, copied.arity_eq]
  -- With a slot missing there is no code, and the names differ only there.
  cases missing? (Frame.ofFunction env function) function.live with
  | none => rfl
  | some name => rfl

/-- A copy of a function has the same pool. -/
theorem pool_copy (copied : function.Copy change copy) : pool copy = pool function := by
  rw [pool, copied.literals_eq, copied.name, pool]

end Emission

/-- Programs whose functions have the same code and pools, one by one, beside the same constants. -/
theorem Object.ofProgram_congr {env other : Environment} {program : Program α} {copy : Program β}
    (constants : other.constants = env.constants)
    (same : List.Forall₂ (fun function twin =>
      Emission.routine other twin = Emission.routine env function ∧
        Emission.pool twin = Emission.pool function) program.functions copy.functions) :
    Object.ofProgram other copy = Object.ofProgram env program := by
  -- The data comes from the constants alone.
  rw [Object.ofProgram, Object.ofProgram, Emission.constants, constants, Emission.constants]
  -- Functions are compiled one after another, and both programs stop at the same one if at any.
  generalize program.functions = functions at same ⊢
  generalize copy.functions = twins at same ⊢
  have parts : twins.mapM (Emission.routine other) = functions.mapM (Emission.routine env) ∧
      twins.flatMap Emission.pool = functions.flatMap Emission.pool := by
    induction same with
    | nil => exact ⟨rfl, rfl⟩
    | cons first _ ih =>
      rw [List.mapM_cons, List.mapM_cons, first.1, ih.1, List.flatMap_cons, List.flatMap_cons,
        first.2, ih.2]
      exact ⟨rfl, rfl⟩
  rw [parts.1, parts.2]

section SameNames

variable {function : Function α} {copy : Function β}

/-- A copy of a function under the same names has the same storage. -/
theorem Frame.ofFunction_of_copy (env : Environment) (copied : function.Copy id copy) :
    Frame.ofFunction env copy = Frame.ofFunction env function := by
  -- The change that changes nothing is one to one.
  have scopes : env.scope copy.name = (env.scope function.name).rename id := by
    rw [copied.name, Table.rename_id]
  rw [Frame.ofFunction_copy Function.injective_id copied scopes, Frame.rename_id]

/-- A copy of a function under the same names has the same code, or is without code for the same
reason. -/
theorem Emission.routine_of_copy (env : Environment) (copied : function.Copy id copy) :
    Emission.routine env copy = Emission.routine env function := by
  -- No name is changed, so those of data are not either.
  have scopes : env.scope copy.name = (env.scope function.name).rename id := by
    rw [copied.name, Table.rename_id]
  rw [Emission.routine_copy Function.injective_id copied scopes fun _ _ _ _ _ _ => rfl]
  cases Emission.routine env function <;> rfl

/-- Copies of functions under the same names make the same compiled program. -/
theorem Object.ofProgram_of_copies (env : Environment) {program : Program α} {copy : Program β}
    (copied : List.Forall₂ (Function.Copy id) program.functions copy.functions) :
    Object.ofProgram env copy = Object.ofProgram env program :=
  Object.ofProgram_congr rfl (copied.imp fun _ _ same =>
    ⟨Emission.routine_of_copy env same, Emission.pool_copy same⟩)

end SameNames

end DoubleLang
