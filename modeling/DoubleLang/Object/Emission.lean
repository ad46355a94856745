import DoubleLang.Frame
import DoubleLang.Object
import DoubleLang.Text.Unit

/-!
Code for programs.

Every value lands in the first register for doubles. Operands wait on the stack, sixteen bytes each,
and literals are loaded from pool entries numbered over the whole body of a function.
-/

namespace DoubleLang

/-- A name that is read and has no slot. -/
structure MissingSlot where
  name : String
  function : String
  deriving DecidableEq, Repr

/-- The wording of a missing slot. -/
def MissingSlot.message (missing : MissingSlot) : String :=
  "emitFunction: \"" ++ missing.name ++ "\" has no storage slot in function \"" ++
    missing.function ++ "\"."

namespace Emission

variable {α : Type}

/-- The register for doubles with a number. -/
def double (register : DoubleRegister) : Operand := .register (.double register)

/-- The base of the frame. -/
def rbp : Operand := .register (.address .rbp)

/-- The top of the stack. -/
def rsp : Operand := .register (.address .rsp)

/-- The cell at a distance from the base of the frame. -/
def frameCell (offset : Int) : Operand := .memory .rbp (.bytes offset)

/-- The cell at a distance from the top of the stack. -/
def stackCell (offset : Int) : Operand := .memory .rsp (.bytes offset)

/-- The data with a name. -/
def symbol (name : String) : Operand := .memory .rip (.symbol name)

/-- Brings a double to the register where values land. -/
def load (source : Operand) : Instruction := ⟨.movsd, [source, double 0]⟩

/-- Keeps the double in the register where values land. -/
def store (target : Operand) : Instruction := ⟨.movsd, [double 0, target]⟩

/-- Puts the value on the stack. -/
def spill : List Instruction :=
  [⟨.sub, [.immediate Frame.spillSize, rsp]⟩, ⟨.movsd, [double 0, stackCell 0]⟩]

/-- The machine's word for an operation. -/
def arithmetic : BinaryOp → Mnemonic
  | .add => .addsd
  | .subtract => .subsd
  | .multiply => .mulsd
  | .divide => .divsd

/-- Joins the left operand on the stack with the right one in the register. -/
def combine (op : BinaryOp) : List Instruction :=
  -- The right operand makes room first, then the left one is taken off the stack.
  [⟨.movaps, [double 0, double 1]⟩, load (stackCell 0), ⟨.add, [.immediate Frame.spillSize, rsp]⟩,
   ⟨arithmetic op, [double 1, double 0]⟩]

/-- Calls a function whose arguments are on the stack, the last one on top. -/
def call (callee : String) (count : Nat) : List Instruction :=
  -- Arguments past the eighth stay on the stack, and the caller drops all of them.
  ((List.finRange 8).take count).map (fun register =>
      ⟨.movsd, [stackCell (Frame.spillSize * (count - 1 - register.val)), double register]⟩)
    ++ [⟨.callq, [.label callee]⟩]
    ++ if count = 0 then [] else [⟨.add, [.immediate (Frame.spillSize * count), rsp]⟩]

/-- Where a name is found: in the frame if its value is kept there, else among the data. -/
def place (frame : Frame) (name : String) : Operand :=
  -- A name with a slot may still be a constant, if the scope does not have it.
  match frame.slots.get? name with
  | some offset => if frame.reads.contains name then frameCell offset else symbol name
  | none => symbol name

mutual

/-- The code of an expression whose first literal has a given number. -/
def expr (function : String) (frame : Frame) (number : Nat) : Expr α → List Instruction
  | .literal _ _ => [load (symbol (PoolName.entry function number))]
  | .name _ name => [load (place frame name)]
  | .binary _ op left right =>
    -- The left operand waits on the stack while the right one is computed.
    expr function frame number left ++ (spill ++
      (expr function frame (number + left.literalCount) right ++ combine op))
  | .call _ callee args => spilled function frame number args ++ call callee args.length
  | .group _ inner => expr function frame number inner

/-- The code that puts arguments on the stack, from left to right. -/
def spilled (function : String) (frame : Frame) (number : Nat) : List (Expr α) → List Instruction
  | [] => []
  | arg :: rest =>
    expr function frame number arg ++ (spill ++
      spilled function frame (number + arg.literalCount) rest)

end

/-- Whether a live statement has code; an assignment that nothing reads has none. -/
def hasCode (frame : Frame) : Statement α → Bool
  | .returns _ _ => true
  | .assign _ target _ => frame.reads.contains target

/-- The code of a statement. -/
def statement (function : String) (frame : Frame) (number : Nat) :
    Statement α → List Instruction
  | .returns _ value => expr function frame number value
  | .assign _ target value =>
    expr function frame number value ++ [store (place frame target)]

/-- The code of live statements; the literals of those without code are numbered too. -/
def statements (function : String) (frame : Frame) (number : Nat) :
    List (Statement α) → List Instruction
  | [] => []
  | first :: rest =>
    (if hasCode frame first then statement function frame number first else []) ++
      statements function frame (number + first.value.literalCount) rest

/-- The first name, in the order of the code, that is to be read from the frame and is not in it. -/
def missing? (frame : Frame) (live : List (Statement α)) : Option String :=
  ((live.filter (hasCode frame)).flatMap (·.value.names)).find? fun name =>
    frame.reads.contains name && !frame.slots.contains name

/-- Opens the frame and keeps the parameters that arrive in registers. -/
def opening (frame : Frame) : List Instruction :=
  [⟨.push, [rbp]⟩, ⟨.mov, [rsp, rbp]⟩] ++
    if frame.size = 0 then []
    else ⟨.sub, [.immediate frame.size, rsp]⟩ ::
      frame.arrivals.map fun arrival =>
        ⟨.movsd, [double arrival.register, frameCell arrival.offset]⟩

/-- Closes the frame and returns. -/
def closing : List Instruction :=
  [⟨.leaveq, []⟩, ⟨.retq, []⟩]

/-- The code of a function in an environment. -/
def routine (env : Environment) (function : Function α) : Except MissingSlot Routine :=
  -- Every name that the code asks of the frame is in it, or there is no code.
  let frame := Frame.ofFunction env function
  match missing? frame function.live with
  | some name => .error ⟨name, function.name⟩
  | none =>
    .ok ⟨function.name, function.arity, frame.size,
      opening frame ++ (statements function.name frame 0 function.live ++ closing)⟩

/-- The data of the constants. -/
def constants (env : Environment) : List Datum :=
  env.constants.entries.map fun (name, value) => ⟨name, value, .constant⟩

/-- The pool of a function: one entry for each literal of its body, code or not. -/
def pool (function : Function α) : List Datum :=
  function.literals.zipIdx.map fun (text, number) =>
    ⟨PoolName.entry function.name number, text, .pool function.name⟩

end Emission

/-- The compiled form of a program in an environment; data of one name keep their order. -/
def Object.ofProgram {α : Type} (env : Environment) (program : Program α) :
    Except MissingSlot Object := do
  -- Sorting is stable, so constants stay before pool entries of the same name.
  let routines ← program.functions.mapM (Emission.routine env)
  let data := Emission.constants env ++ program.functions.flatMap Emission.pool
  return ⟨routines, data.mergeSort fun first second => Text.precedes first.name second.name⟩

end DoubleLang
