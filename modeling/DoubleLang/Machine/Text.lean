import DoubleLang.Machine.Instruction
import DoubleLang.Text.Hex
import DoubleLang.Text.Unit

/-! Instructions as lines of assembly text. -/

namespace DoubleLang

/-- The name of an address register. -/
def AddressRegister.text : AddressRegister → String
  | .rbp => "rbp"
  | .rsp => "rsp"
  | .rip => "rip"

/-- The name of a register for doubles. -/
def DoubleRegister.text (register : DoubleRegister) : String :=
  "xmm" ++ toString register.val

/-- The name of a register. -/
def Register.text : Register → String
  | .address register => register.text
  | .double register => DoubleRegister.text register

/-- The text of a displacement; no bytes at all are not written. -/
def Displacement.text : Displacement → String
  | .bytes count => if count = 0 then "" else Text.signedHex count
  | .symbol name => name

/-- The text of an operand. -/
def Operand.text : Operand → String
  | .register named => "%" ++ named.text
  | .immediate value => "$" ++ Text.signedHex value
  | .memory base displacement => displacement.text ++ "(%" ++ base.text ++ ")"
  | .label name => name

/-- The word of an operation. -/
def Mnemonic.text : Mnemonic → String
  | .push => "push"
  | .mov => "mov"
  | .sub => "sub"
  | .add => "add"
  | .movsd => "movsd"
  | .movaps => "movaps"
  | .addsd => "addsd"
  | .subsd => "subsd"
  | .mulsd => "mulsd"
  | .divsd => "divsd"
  | .callq => "callq"
  | .leaveq => "leaveq"
  | .retq => "retq"

/-- A word filled up with spaces to a number of columns. -/
def padded (columns : Nat) (word : String) : String :=
  word ++ String.ofList (List.replicate (columns - Text.width word.toList) ' ')

/-- An indented line: a word, and from the ninth column on its operands between commas. -/
def instructionLine (word : String) (operands : List Operand) : String :=
  -- A word alone is not filled up, so no line ends in spaces.
  if operands.isEmpty then "    " ++ word
  else "    " ++ padded 8 word ++ String.intercalate "," (operands.map Operand.text)

/-- The line of an instruction. -/
def Instruction.line (instruction : Instruction) : String :=
  instructionLine instruction.mnemonic.text instruction.operands

end DoubleLang
