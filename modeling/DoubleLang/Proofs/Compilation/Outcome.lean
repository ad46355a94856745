import DoubleLang.Compilation.Stages
import DoubleLang.Proofs.Compilation.Relocation
import DoubleLang.Proofs.Object.Emission
import DoubleLang.Proofs.Object.Emitter
import DoubleLang.Proofs.Program.Descent
import DoubleLang.Proofs.Token.ScanInto

/-!
What the stages of a compilation report, and what a compilation comes to.

The stages share one log. Each of them leaves it as it is, or it makes nothing and adds one error,
at which the compilation ends. Code is found for every program that comes so far.
-/

namespace DoubleLang

namespace Logged

/-- A stage does the same whatever the log: it makes a value and leaves the log alone, or it makes
none and adds one error. -/
def Decides {α : Type} (stage : Logged α) : Prop :=
  (∃ value, ∀ log, stage log = (some value, log)) ∨
    ∃ report, report.severity = .error ∧ ∀ log, stage log = (none, log ++ [report])

/-- A stage decides if it has one outcome for all logs and its failures are errors. -/
theorem decides_ofExcept {α : Type} {outcome : Except Diagnostic α}
    (errors : ∀ report, outcome = .error report → report.severity = .error) :
    Decides (ofExcept outcome) := by
  -- A value leaves the log alone, and a failure is one report behind it.
  cases outcome with
  | ok value => exact .inl ⟨value, fun _ => rfl⟩
  | error report => exact .inr ⟨report, errors report rfl, fun _ => rfl⟩

/-- One outcome after the other is the outcome of both. -/
private theorem ofExcept_bind {α β : Type} (first : Except Diagnostic α)
    (next : α → Except Diagnostic β) :
    (ofExcept first >>= fun value => ofExcept (next value)) = ofExcept (first >>= next) := by
  -- The first failure ends the work.
  cases first with
  | error report => rfl
  | ok value => rfl

end Logged

open Diagnostic Logged

namespace Compilation

/-- The artifacts that are asked for: the assembly, then the map if there is a writer for it. -/
def requested (object : Object) (options : Options) (writers : Writers) : List Artifact :=
  (if options.assembly then [⟨.assembly, writers.assembly object options.ending⟩] else []) ++
    if options.map then writers.map.toList.map fun writer => ⟨.map, writer object options.ending⟩
    else []

/-- A compilation without errors: what is asked for is made, and a warning stands for a map that
cannot be written. -/
structure Delivers (object : Object) (options : Options) (writers : Writers) (file : String)
    (made : Compilation) : Prop where
  artifacts : made.artifacts = requested object options writers
  diagnostics : made.diagnostics =
    if options.map && writers.map.isNone then
      [⟨.unclassified, .warning,
        "emitMap=true but no map writer is configured; skipping .map artifact.", file, none⟩]
    else []
  unfailed : anyError made.diagnostics = false

end Compilation

/-- What the scan reports is an error. -/
private theorem Token.severity_of_scan {file text : String} {report : Diagnostic}
    (failed : (Token.scan file text).mapError (·.diagnostic file) = .error report) :
    report.severity = .error := by
  obtain ⟨fault, -, rfl⟩ := mapError_eq_error_iff.mp failed
  rfl

namespace Program

/-- What reading reports is an error. -/
private theorem severity_of_read {file : String} {tokens : List Token} {report : Diagnostic}
    (failed : (Program.read file tokens).mapError (·.diagnostic file) = .error report) :
    report.severity = .error := by
  obtain ⟨refusal, -, rfl⟩ := mapError_eq_error_iff.mp failed
  cases refusal <;> rfl

/-- What the check reports is an error. -/
private theorem severity_of_environment {program : Program Span} {report : Diagnostic}
    (failed : program.environment = .error report) : report.severity = .error := by
  obtain ⟨offence, -, rfl⟩ := mapError_eq_error_iff.mp failed
  rfl

/-- The two stages over a log come to what they come to one after the other. -/
theorem parseInto_eq (file text : String) :
    parseInto file text = .ofExcept (Program.parse file text) := by
  -- A text that cannot be scanned is not read any further.
  rw [parseInto, Token.scanInto_eq, funext (readInto_eq file), ofExcept_bind, Program.parse]

/-- The check over a log comes to the environment, or to the report of the offence. -/
theorem checkInto_eq (program : Program Span) :
    program.checkInto = .ofExcept program.environment := by
  -- An offence is reported by its diagnostic in both.
  unfold checkInto Program.environment
  cases program.check with
  | error offence => rfl
  | ok env => rfl

/-- What is reported of a text that is no program is an error. -/
private theorem severity_of_parse {file text : String} {report : Diagnostic}
    (failed : Program.parse file text = .error report) : report.severity = .error := by
  -- Either stage may have failed.
  unfold Program.parse at failed
  cases scanned : (Token.scan file text).mapError (·.diagnostic file) with
  | error fault =>
    rw [scanned] at failed
    cases failed
    exact Token.severity_of_scan scanned
  | ok tokens =>
    rw [scanned] at failed
    exact severity_of_read failed

end Program

/-- A text is compiled unless it is no program or breaks a rule, which is reported as an error. -/
theorem Object.ofText_cases (file text : String) :
    (∃ report, report.severity = .error ∧ Object.ofText file text = .error report ∧
      (Program.parse file text = .error report ∨
        ∃ program, Program.parse file text = .ok program ∧ program.environment = .error report)) ∨
    ∃ program env object, Program.parse file text = .ok program ∧ program.environment = .ok env ∧
      Object.ofProgram env program = .ok object ∧ Object.ofText file text = .ok object := by
  -- A text is parsed, then checked, and then compiled.
  unfold Object.ofText
  cases parsed : Program.parse file text with
  | error report => exact .inl ⟨report, Program.severity_of_parse parsed, rfl, .inl rfl⟩
  | ok program =>
    cases judged : program.environment with
    | error report =>
      refine .inl ⟨report, Program.severity_of_environment judged, ?_, .inr ⟨program, rfl, judged⟩⟩
      simp only [bind, Except.bind, judged]
    | ok env =>
      -- A program in its own environment has code.
      have checked := Program.checked_of_check (mapError_eq_ok_iff.mp judged)
      obtain ⟨object, made, -, -⟩ := Object.ofProgram_eq_ok checked
      refine .inr ⟨program, env, object, rfl, judged, made, ?_⟩
      simp only [bind, Except.bind, judged, made, Except.mapError]

namespace Compilation

/-- Nothing breaks off, and the log has what the compilation reports. -/
theorem staged_eq (text : String) (options : Options) (writers : Writers) (file : String) :
    staged text options writers file = .ok (ofText text options writers file) := by
  -- The stages share one log, each starting from what the one before has left.
  unfold staged ofText
  rw [Program.parseInto_eq, ofExcept_apply]
  -- The log is empty up to the stage that fails, and code is found in any case.
  rcases Object.ofText_cases file text with ⟨report, -, failed, cause⟩ |
      ⟨program, env, object, parsed, judged, made, compiled⟩
  · rw [failed]
    rcases cause with parsed | ⟨program, parsed, judged⟩
    · simp only [parsed, record, List.nil_append, pure, Except.pure]
    · simp [parsed, record, Program.checkInto_eq, ofExcept_apply, judged, anyError, pure,
        Except.pure]
  · simp [parsed, record, Program.checkInto_eq, ofExcept_apply, judged, anyError, compiled,
      Object.emit_eq, made, Except.mapError, bind, Except.bind, pure, Except.pure]

/-- Writing an object delivers it. -/
theorem delivers_write (object : Object) (options : Options) (writers : Writers) (file : String) :
    Delivers object options writers file (write object options writers file) := by
  -- The map is asked for or not, and there is a writer for it or not.
  cases asked : options.map with
  | false => refine ⟨?_, ?_, ?_⟩ <;> simp [write, requested, asked, anyError]
  | true =>
    cases writer : writers.map with
    | none =>
      refine ⟨?_, ?_, ?_⟩ <;> simp [write, requested, asked, writer, anyError, noMapWriter]
    | some writer =>
      refine ⟨?_, ?_, ?_⟩ <;> simp [write, requested, asked, writer, anyError]

/-- A compilation reports one error and makes nothing, or it delivers. -/
theorem ofText_cases (text : String) (options : Options) (writers : Writers) (file : String) :
    (∃ report, report.severity = .error ∧ ofText text options writers file = ⟨[report], []⟩) ∨
      ∃ object, Object.ofText file text = .ok object ∧
        Delivers object options writers file (ofText text options writers file) := by
  -- What is delivered is written from the object of the text.
  unfold ofText
  rcases Object.ofText_cases file text with ⟨report, error, failed, -⟩ |
      ⟨_, _, object, -, -, -, compiled⟩
  · exact .inl ⟨report, error, by rw [failed]⟩
  · refine .inr ⟨object, compiled, ?_⟩
    rw [compiled]
    exact delivers_write object options writers file

/-- Whether there is an error has to do with the text alone. -/
private theorem anyError_ofText (text : String) (options : Options) (writers : Writers)
    (file : String) :
    anyError (ofText text options writers file).diagnostics = false ↔
      ∃ object, Object.ofText file text = .ok object := by
  -- The warning for want of a writer is no error.
  unfold ofText
  rcases Object.ofText_cases file text with ⟨report, error, failed, -⟩ |
      ⟨_, _, object, -, -, -, compiled⟩
  · simp [failed, anyError, error]
  · simp [compiled, (delivers_write object options writers file).unfailed]

/-- The assembly of a text is found among the artifacts, unless there is an error. -/
theorem assembled?_eq (text : String) : assembled? text = some (assemble text) := by
  -- One artifact is asked for, so it is the one that is found.
  unfold assembled? assemble
  rw [staged_eq]
  rcases Object.ofText_cases unnamed text with ⟨report, error, failed, -⟩ |
      ⟨_, _, object, -, -, -, compiled⟩
  · simp [ofText, failed, error, Except.toOption]
  · simp [ofText, compiled, write, Except.toOption]

/-- The assembly of a text is made exactly if there is an object of it, in whatever file. -/
private theorem isOk_assemble (text file : String) :
    (assemble text).isOk = true ↔ ∃ object, Object.ofText file text = .ok object := by
  -- The name of the file shows in the report only.
  rw [Object.ofText_rename (fun _ => file) unnamed text, assemble]
  simp only [mapError_eq_ok_iff]
  cases Object.ofText unnamed text with
  | error report => simp [bind, Except.bind, Except.isOk, Except.toBool]
  | ok object => simp [bind, Except.bind, pure, Except.pure, Except.isOk, Except.toBool]

/-- Each stage decides, whatever the log; a compilation over one log is the one that is run, and
either reports one error and makes nothing, or makes all that is asked for and reports no error; and
the assembly of a text is always an error or a text, a text exactly if its compilations report no
error. -/
theorem reports_one_error_or_delivers :
    (∀ file text, Decides (Token.scanInto file text)) ∧
    (∀ file tokens, Decides (Program.readInto file tokens)) ∧
    (∀ file text, Decides (Program.parseInto file text)) ∧
    (∀ program : Program Span, Decides program.checkInto) ∧
    (∀ text options writers file,
      staged text options writers file = .ok (ofText text options writers file) ∧
      ((∃ report, report.severity = .error ∧ ofText text options writers file = ⟨[report], []⟩) ∨
        ∃ object, Object.ofText file text = .ok object ∧
          Delivers object options writers file (ofText text options writers file))) ∧
    ∀ text, assembled? text = some (assemble text) ∧
      ∀ options writers file, (assemble text).isOk = true ↔
        anyError (ofText text options writers file).diagnostics = false := by
  -- Each stage comes to one outcome for all logs.
  refine ⟨?_, ?_, ?_, ?_, ?_, ?_⟩
  · intro file text
    rw [Token.scanInto_eq]
    exact decides_ofExcept fun _ => Token.severity_of_scan
  · intro file tokens
    rw [Program.readInto_eq]
    exact decides_ofExcept fun _ => Program.severity_of_read
  · intro file text
    rw [Program.parseInto_eq]
    exact decides_ofExcept fun _ => Program.severity_of_parse
  · intro program
    rw [Program.checkInto_eq]
    exact decides_ofExcept fun _ => Program.severity_of_environment
  · exact fun text options writers file =>
      ⟨staged_eq text options writers file, ofText_cases text options writers file⟩
  · intro text
    refine ⟨assembled?_eq text, fun options writers file => ?_⟩
    rw [isOk_assemble text file, anyError_ofText]

end Compilation

end DoubleLang
