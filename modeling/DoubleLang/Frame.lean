import DoubleLang.Machine.Instruction
import DoubleLang.Program.Environment

/-!
Where a function keeps its names while it runs.

Only statements through the first return are live, and only names whose value reaches the returned
expression through live assignments are read. Other assignments need no storage.
-/

namespace DoubleLang

/-- The statements through the first return. -/
def Statement.live {α : Type} : List (Statement α) → List (Statement α)
  | [] => []
  | statement :: rest =>
    if statement.isReturn then [statement] else statement :: Statement.live rest

/-- The live statements of a function. -/
def Function.live {α : Type} (function : Function α) : List (Statement α) :=
  Statement.live function.body

namespace Frame

variable {α : Type}

/-- Adds the names that are in a scope to those that are read. -/
def addReads (scope : Scope) (reads : List String) (names : List String) : List String :=
  -- A name outside the scope is a constant, and needs no storage.
  names.foldl (fun reads name =>
    if scope.contains name && !reads.contains name then reads ++ [name] else reads) reads

/-- Adds what a statement returns. -/
def addReturned (scope : Scope) (reads : List String) : Statement α → List String
  | .returns _ value => addReads scope reads value.names
  | .assign _ _ _ => reads

/-- Adds what a statement assigns to a name that is read. -/
def addAssigned (scope : Scope) (reads : List String) : Statement α → List String
  | .returns _ _ => reads
  | .assign _ target value =>
    if reads.contains target then addReads scope reads value.names else reads

/-- Goes through the assignments again and again, a number of times or until nothing is added. -/
def closeReads (scope : Scope) (live : List (Statement α)) : Nat → List String → List String
  | 0, reads => reads
  | turns + 1, reads =>
    -- Names are only ever added, so equal numbers mean equal names.
    let next := live.foldl (addAssigned scope) reads
    if next.length = reads.length then reads else closeReads scope live turns next

/-- The names of a scope that live statements read; each turn but the last adds one of them. -/
def readsOf (scope : Scope) (live : List (Statement α)) : List String :=
  -- There are no more turns than names of the scope, for each is added once.
  closeReads scope live scope.entries.length (live.foldl (addReturned scope) [])

/-- The bytes of a double. -/
def slotSize : Nat := 8

/-- The bytes of a value on the stack, which keep the stack aligned. -/
def spillSize : Nat := 16

/-- Where an argument stands above the base, for the last one lies lowest. -/
def stackOffset (index arity : Int) : Int :=
  -- The return address and the base of the caller take the first sixteen bytes.
  16 + spillSize * (arity - 1 - index)

/-- The offset of a slot below the base, by its number. -/
def slotOffset (number : Nat) : Int :=
  -(slotSize * (number + 1) : Nat)

/-- A number of bytes taken up to whole pairs of slots. -/
def aligned (bytes : Nat) : Nat :=
  (bytes + 15) / 16 * 16

/-- A parameter that arrives in a register and is kept in the frame. -/
structure Arrival where
  name : String
  register : DoubleRegister
  offset : Int
  deriving DecidableEq, Repr

/-- The parameters that arrive in registers. -/
def arrivalsOf (params : List (Parameter α)) : List Arrival :=
  -- There are eight registers; what is left over arrives on the stack.
  (params.zip (List.finRange 8)).map fun (param, register) =>
    ⟨param.name, register, slotOffset register.val⟩

/-- The slots of the parameters that arrive on the stack. -/
def stackSlots (params : List (Parameter α)) : Table Int :=
  (params.zipIdx.drop 8).foldl (fun slots (param, index) =>
    slots.set param.name (stackOffset index params.length)) .empty

/-- Gives the target of an assignment the next slot, if it is read and has none. -/
def placeTarget (reads : List String) (placed : Table Int × Nat) :
    Statement α → Table Int × Nat
  | .returns _ _ => placed
  | .assign _ target _ =>
    let (slots, used) := placed
    if slots.contains target || !reads.contains target then placed
    else (slots.set target (slotOffset used), used + 1)

end Frame

/-- The storage of a function. -/
structure Frame where
  /-- The bytes below the base. -/
  size : Nat
  /-- The offset from the base of each name that has one. -/
  slots : Table Int
  arrivals : List Frame.Arrival
  /-- The names whose value is read. -/
  reads : List String
  deriving DecidableEq, Repr

/-- The storage of a function in an environment. -/
def Frame.ofFunction {α : Type} (env : Environment) (function : Function α) : Frame :=
  let live := function.live
  let reads := readsOf (env.scope function.name) live
  let stack := stackSlots function.params
  -- A function that reads nothing needs no frame and keeps no parameter.
  if reads.isEmpty then ⟨0, stack, [], reads⟩
  else
    -- Parameters from registers take the first slots, and targets the next ones.
    let kept := arrivalsOf function.params
    let slots := kept.foldl (fun slots arrival => slots.set arrival.name arrival.offset) stack
    let (slots, used) := live.foldl (placeTarget reads) (slots, kept.length)
    ⟨aligned (slotSize * used), slots, kept, reads⟩

end DoubleLang
