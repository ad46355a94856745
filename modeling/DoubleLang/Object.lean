import DoubleLang.Machine.Instruction

/-! A compiled program: the code of its functions and its data. -/

namespace DoubleLang

/-- The code of a function. -/
structure Routine where
  name : String
  arity : Nat
  /-- The bytes reserved below the base of the frame. -/
  frameSize : Int
  instructions : List Instruction
  deriving DecidableEq, Repr

/-- What a piece of data stands for. -/
inductive Origin where
  | constant
  /-- A literal of a function. -/
  | pool (function : String)
  deriving DecidableEq, Repr

/-- A double in memory, by the text of its value. -/
structure Datum where
  name : String
  value : String
  origin : Origin
  deriving DecidableEq, Repr

/-- A compiled program: functions in source order, data by name. -/
structure Object where
  routines : List Routine
  data : List Datum
  deriving DecidableEq, Repr

end DoubleLang
