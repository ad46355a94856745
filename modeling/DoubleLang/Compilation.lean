import DoubleLang.Artifact
import DoubleLang.Object.Emission
import DoubleLang.Program.Reading
import DoubleLang.Token.Scan

/-! From source text to artifacts: the stages in turn, up to the first error. -/

namespace DoubleLang

/-- The program of a source text, or the report of the first error. -/
def Program.parse (file text : String) : Except Diagnostic (Program Span) := do
  let tokens ← (Token.scan file text).mapError (·.diagnostic file)
  (Program.read file tokens).mapError (·.diagnostic file)

/-- The environment of a program, or the report of its first offence. -/
def Program.environment (program : Program Span) : Except Diagnostic Environment :=
  program.check.mapError Offence.diagnostic

/-- The compiled form of a source text, or the report of the first error. -/
def Object.ofText (file text : String) : Except Diagnostic Object := do
  let program ← Program.parse file text
  let env ← program.environment
  -- A program in its own environment has every slot, so this last report never comes up.
  (Object.ofProgram env program).mapError fun missing =>
    ⟨.unclassified, .error, missing.message, file, none⟩

/-- Which artifacts are asked for, and how their lines end. -/
structure Options where
  assembly : Bool := true
  map : Bool := false
  ending : LineEnding := .lf
  deriving DecidableEq, Repr

/-- A way to write a compiled program as text. -/
abbrev Writer := Object → LineEnding → String

/-- The ways to write artifacts; there may be none for the map. -/
structure Writers where
  assembly : Writer := Object.assembly
  map : Option Writer := some Object.map

/-- What a compilation reports and makes. -/
structure Compilation where
  diagnostics : List Diagnostic
  artifacts : List Artifact
  deriving DecidableEq, Repr

namespace Compilation

/-- The file name of a text that has none. -/
def unnamed : String := "<input>"

/-- The warning that a map is asked for and cannot be written. -/
def noMapWriter (file : String) : Diagnostic :=
  ⟨.unclassified, .warning,
    "emitMap=true but no map writer is configured; skipping .map artifact.", file, none⟩

/-- The artifacts that are asked for, assembly first. -/
def write (object : Object) (options : Options) (writers : Writers) (file : String) : Compilation :=
  let assembly : List Artifact :=
    if options.assembly then [⟨.assembly, writers.assembly object options.ending⟩] else []
  -- Without a writer for the map the assembly is made all the same.
  if options.map then
    match writers.map with
    | some writer => ⟨[], assembly ++ [⟨.map, writer object options.ending⟩]⟩
    | none => ⟨[noMapWriter file], assembly⟩
  else ⟨[], assembly⟩

/-- Compiles a source text; an error leaves no artifacts. -/
def ofText (text : String) (options : Options) (writers : Writers) (file : String) :
    Compilation :=
  match Object.ofText file text with
  | .ok object => write object options writers file
  | .error report => ⟨[report], []⟩

end Compilation

/-- The assembly of a source text, or the report of the first error. -/
def assemble (text : String) : Except Diagnostic String := do
  let object ← Object.ofText Compilation.unnamed text
  return object.assembly .lf

end DoubleLang
