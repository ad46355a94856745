import DoubleLang.Machine.Text
import DoubleLang.Object

/-! The texts a compiled program is written as: its assembly and the map of its symbols. -/

namespace DoubleLang

/-- What ends a line. -/
inductive LineEnding where
  | lf
  | crlf
  deriving DecidableEq, Repr

/-- The characters that end a line. -/
def LineEnding.text : LineEnding → String
  | .lf => "\n"
  | .crlf => "\r\n"

/-- Lines as one text, each with its ending. -/
def LineEnding.join (ending : LineEnding) (lines : List String) : String :=
  -- The last line is ended like any other.
  String.join (lines.map (· ++ ending.text))

/-- What an artifact is. -/
inductive Artifact.Kind where
  | assembly
  | map
  deriving DecidableEq, Repr

/-- A text made from a program. -/
structure Artifact where
  kind : Artifact.Kind
  text : String
  deriving DecidableEq, Repr

/-- Where a piece of data comes from, in a map. -/
def Origin.text : Origin → String
  | .constant => "const"
  | .pool function => "pool " ++ function

/-- The lines of a function in assembly, closed by an empty one. -/
def Routine.lines (routine : Routine) : List String :=
  (routine.name ++ ":") :: routine.instructions.map Instruction.line ++ [""]

namespace Object

/-- The lines of the assembly: a head, the functions, and the data behind an empty line. -/
def assemblyLines (object : Object) : List String :=
  [".section .text", ".globl main", ""] ++ object.routines.flatMap Routine.lines ++ [""] ++
    object.data.map fun datum => datum.name ++ ": .double " ++ datum.value

/-- The lines of the map: functions with arity and frame size, and data with its origin. -/
def mapLines (object : Object) : List String :=
  ["; dblc symbol map", "", "; functions:"] ++
    object.routines.map (fun routine =>
      "func " ++ routine.name ++ " arity=" ++ toString routine.arity ++ " frame=" ++
        Text.signedHex routine.frameSize) ++
    ["", "; data:"] ++
    object.data.map fun datum =>
      "data " ++ datum.name ++ " = " ++ datum.value ++ " (" ++ datum.origin.text ++ ")"

/-- The assembly of a compiled program. -/
def assembly (object : Object) (ending : LineEnding) : String :=
  ending.join object.assemblyLines

/-- The symbol map of a compiled program. -/
def map (object : Object) (ending : LineEnding) : String :=
  ending.join object.mapLines

end Object

end DoubleLang
