/-! The instructions of the target machine, with their operands in source-first order. -/

namespace DoubleLang

/-- The registers that hold addresses. -/
inductive AddressRegister where
  /-- The base of the frame. -/
  | rbp
  /-- The top of the stack. -/
  | rsp
  /-- The instruction pointer, which data is addressed from. -/
  | rip
  deriving DecidableEq, Repr

/-- The registers that hold doubles and pass arguments, by number. -/
abbrev DoubleRegister := Fin 8

/-- Any register. -/
inductive Register where
  | address (register : AddressRegister)
  | double (register : DoubleRegister)
  deriving DecidableEq, Repr

/-- A number that no register for arguments has. -/
structure NoArgumentRegister where
  index : Int
  deriving DecidableEq, Repr

/-- The wording of a number without register. -/
def NoArgumentRegister.message (missing : NoArgumentRegister) : String :=
  "No argument register %xmm" ++ toString missing.index ++ "."

/-- The register that passes an argument, by the number of the argument. -/
def argumentRegister (index : Int) : Except NoArgumentRegister DoubleRegister :=
  -- Eight registers pass arguments, numbered from zero.
  if index < 0 then .error ⟨index⟩
  else if small : index.toNat < 8 then .ok ⟨index.toNat, small⟩
  else .error ⟨index⟩

/-- A distance from a base register. -/
inductive Displacement where
  | bytes (count : Int)
  | symbol (name : String)
  deriving DecidableEq, Repr

/-- What an instruction works on. -/
inductive Operand where
  | register (register : Register)
  | immediate (value : Int)
  | memory (base : AddressRegister) (displacement : Displacement)
  | label (name : String)
  deriving DecidableEq, Repr

/-- The operations the compiler uses. -/
inductive Mnemonic where
  | push
  | mov
  | sub
  | add
  | movsd
  | movaps
  | addsd
  | subsd
  | mulsd
  | divsd
  | callq
  | leaveq
  | retq
  deriving DecidableEq, Repr

/-- An operation with its operands, sources before the destination. -/
structure Instruction where
  mnemonic : Mnemonic
  operands : List Operand
  deriving DecidableEq, Repr

end DoubleLang
