import DoubleLang.Object.Emission

/-!
Code emitted in one pass.

The pass carries what has been written so far: the code of the function at hand, the number of its
literals that have been met, and one list of data for all functions. It breaks off where a name has
no slot or an argument no register.
-/

namespace DoubleLang

namespace Emitter

/-- Why a pass breaks off. -/
inductive Halt where
  | slot (missing : MissingSlot)
  | register (missing : NoArgumentRegister)
  deriving DecidableEq, Repr

/-- The wording of a pass that breaks off. -/
def Halt.message : Halt → String
  | .slot missing => missing.message
  | .register missing => missing.message

/-- What a pass has written. -/
structure Output where
  code : List Instruction
  /-- How many literals of the function have been met. -/
  met : Nat
  data : List Datum
  deriving DecidableEq, Repr

end Emitter

/-- Work on what a pass has written, unless it breaks off. -/
abbrev Emitter (β : Type) : Type :=
  StateT Emitter.Output (Except Emitter.Halt) β

namespace Emitter

open Emission

variable {α : Type}

/-- Writes instructions. -/
def emit (instructions : List Instruction) : Emitter Unit :=
  modify fun output => { output with code := output.code ++ instructions }

/-- Meets a literal: its pool entry has the next number and is added to the data. -/
def poolEntry (function text : String) : Emitter String := do
  let output ← get
  -- Equal literals have entries of their own.
  let entry : Datum := ⟨PoolName.entry function output.met, text, .pool function⟩
  set { output with met := output.met + 1, data := output.data ++ [entry] }
  return entry.name

/-- The cell of a name in the frame. -/
def slot (function : String) (frame : Frame) (name : String) : Emitter Operand :=
  match frame.slots.get? name with
  | some offset => return frameCell offset
  | none => throw (.slot ⟨name, function⟩)

/-- The register of an argument. -/
def register (index : Int) : Emitter Operand :=
  match argumentRegister index with
  | .ok register => return double register
  | .error missing => throw (.register missing)

/-- Takes arguments from the stack to their registers, first ones first. -/
def passArguments (count : Nat) : Emitter Unit :=
  (List.range (min count 8)).forM fun index => do
    -- The last argument was put on top.
    let cell := stackCell (Frame.spillSize * (count - 1 - index))
    emit [⟨.movsd, [cell, ← register index]⟩]

mutual

/-- Writes the code of an expression. -/
def expr (function : String) (frame : Frame) : Expr α → Emitter Unit
  | .literal _ text => do emit [load (symbol (← poolEntry function text))]
  | .name _ name => do
    -- What is not in the frame is taken for a constant.
    if frame.reads.contains name then emit [load (← slot function frame name)]
    else emit [load (symbol name)]
  | .group _ inner => expr function frame inner
  | .binary _ op left right => do
    expr function frame left
    emit spill
    expr function frame right
    emit (combine op)
  | .call _ callee args => do
    spilled function frame args
    passArguments args.length
    emit [⟨.callq, [.label callee]⟩]
    -- The caller gives up what it has put on the stack.
    if 0 < args.length then
      emit [⟨.add, [.immediate (Frame.spillSize * args.length), rsp]⟩]

/-- Writes the code that puts arguments on the stack. -/
def spilled (function : String) (frame : Frame) : List (Expr α) → Emitter Unit
  | [] => return ()
  | arg :: rest => do
    expr function frame arg
    emit spill
    spilled function frame rest

end

mutual

/-- Meets the literals of an expression, which has no code. -/
def skip (function : String) : Expr α → Emitter Unit
  | .literal _ text => do let _ ← poolEntry function text
  | .name _ _ => return ()
  | .group _ inner => skip function inner
  | .binary _ _ left right => do
    skip function left
    skip function right
  | .call _ _ args => skipAll function args

/-- Meets the literals of expressions, from left to right. -/
def skipAll (function : String) : List (Expr α) → Emitter Unit
  | [] => return ()
  | arg :: rest => do
    skip function arg
    skipAll function rest

end

/-- Writes the code of a live statement, if it has any. -/
def statement (function : String) (frame : Frame) : Statement α → Emitter Unit
  | .returns _ value => expr function frame value
  | .assign _ target value =>
    if frame.reads.contains target then do
      expr function frame value
      emit [store (← slot function frame target)]
    else skip function value

/-- Goes through a body, of which a number of statements are live. -/
def body (function : String) (frame : Frame) : Nat → List (Statement α) → Emitter Unit
  | _, [] => return ()
  | 0, tree :: rest => do
    -- A literal has its entry even where nothing reads it or control never comes.
    skip function tree.value
    body function frame 0 rest
  | live + 1, tree :: rest => do
    statement function frame tree
    body function frame live rest

/-- Opens the frame and keeps the parameters that arrive in registers. -/
def opening (frame : Frame) : Emitter Unit := do
  emit [⟨.push, [rbp]⟩]
  emit [⟨.mov, [rsp, rbp]⟩]
  -- A function that keeps nothing has no room of its own.
  if 0 < frame.size then
    emit [⟨.sub, [.immediate frame.size, rsp]⟩]
    frame.arrivals.forM fun arrival => do
      emit [⟨.movsd, [← register arrival.register.val, frameCell arrival.offset]⟩]

/-- The code of a function and the data so far, with those of its literals behind. -/
def routine (env : Environment) (data : List Datum) (function : Function α) :
    Except Halt (Routine × List Datum) := do
  let frame := Frame.ofFunction env function
  let work : Emitter Unit := do
    opening frame
    body function.name frame function.live.length function.body
    emit closing
  -- Code and numbers start afresh, and the data go on.
  let ((), output) ← work.run ⟨[], 0, data⟩
  return (⟨function.name, function.arity, frame.size, output.code⟩, output.data)

/-- The code of functions in turn, and all data behind those so far. -/
def routines (env : Environment) (data : List Datum) :
    List (Function α) → Except Halt (List Routine × List Datum)
  | [] => return ([], data)
  | function :: rest => do
    let (first, data) ← routine env data function
    let (others, data) ← routines env data rest
    return (first :: others, data)

end Emitter

/-- The compiled form of a program in an environment, made in one pass. -/
def Object.emit {α : Type} (env : Environment) (program : Program α) :
    Except Emitter.Halt Object := do
  let constants := env.constants.entries.map fun (name, value) => ⟨name, value, .constant⟩
  let (routines, data) ← Emitter.routines env constants program.functions
  return ⟨routines, data.mergeSort fun first second => Text.precedes first.name second.name⟩

end DoubleLang
