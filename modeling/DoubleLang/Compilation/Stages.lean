import DoubleLang.Compilation
import DoubleLang.Object.Emitter
import DoubleLang.Program.Descent
import DoubleLang.Token.ScanInto

/-!
A compilation as a chain of stages that share one log.

The scan, the descent and the check take the log and add to it where they give up; the compilation
looks at what they made and at the log behind each of them.
-/

namespace DoubleLang

namespace Program

/-- The program of a text: it is scanned, then read. -/
def parseInto (file text : String) : Logged (Program Span) := do
  let tokens ← Token.scanInto file text
  readInto file tokens

/-- The environment of a program; the check is left at the first offence, which is reported. -/
def checkInto (program : Program Span) : Logged Environment :=
  match program.check with
  | .ok env => pure env
  | .error offence =>
    .giveUp ⟨offence.violation.code, .error, offence.violation.message, offence.span.file,
      some offence.span.start⟩

end Program

namespace Compilation

/-- A compilation over one log; an error in it leaves no artifacts. -/
def staged (text : String) (options : Options) (writers : Writers) (file : String) :
    Except Emitter.Halt Compilation :=
  match Program.parseInto file text [] with
  | (none, log) => return ⟨log, []⟩
  | (some program, log) =>
    -- A stage may have made something and reported an error all the same.
    if Diagnostic.anyError log then return ⟨log, []⟩
    else match program.checkInto log with
      | (none, log) => return ⟨log, []⟩
      | (some env, log) =>
        if Diagnostic.anyError log then return ⟨log, []⟩
        else do
          -- What is reported about the artifacts comes behind all that the stages report.
          let object ← Object.emit env program
          let made := write object options writers file
          return ⟨log ++ made.diagnostics, made.artifacts⟩

/-- The first error of a compilation or else its assembly; there is nothing where the compilation
breaks off, or both are missing. -/
def assembled? (text : String) : Option (Except Diagnostic String) := do
  let made ← (staged text { assembly := true, map := false } {} unnamed).toOption
  match made.diagnostics.find? (·.severity == .error) with
  | some report => return .error report
  | none =>
    -- Nothing but assembly is asked for, so it has to be there.
    let artifact ← made.artifacts.find? (·.kind == .assembly)
    return .ok artifact.text

end Compilation

end DoubleLang
