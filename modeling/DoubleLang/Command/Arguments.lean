import DoubleLang.Artifact
import DoubleLang.File.Path

/-!
The arguments of the command line.

They are settings followed by one entry file, which comes last. A wish for help or for the version
ends the settings too, and whatever follows it is not looked at.
-/

namespace DoubleLang.Command

/-- One wish about a compilation. -/
inductive Setting where
  | map
  | print
  | crlf
  | output (path : String)
  deriving DecidableEq, Repr

/-- Why arguments are refused. -/
inductive UsageError where
  | noOutput
  | unknownOption (argument : String)
  | misplacedEntry
  | outputExtension
  | printCombined
  deriving DecidableEq, Repr

/-- The wording of a refusal. -/
def UsageError.message : UsageError → String
  | .noOutput => "--output expects a value"
  | .unknownOption argument => "Unknown option \"" ++ argument ++ "\""
  | .misplacedEntry => "Expected exactly one <entry.dbl> argument (and it must be last)"
  | .outputExtension => "--output must end with \".s\""
  | .printCombined => "--print cannot be combined with --output or --map"

/-- What one argument is on its own. -/
inductive Word where
  | setting (setting : Setting)
  /-- The output path is the next argument. -/
  | outputNext
  | help
  | version
  | unknown
  | entry
  deriving DecidableEq, Repr

/-- What the setting of an output path starts with when it is one argument. -/
def outputMark : String := "--output="

/-- Reads one argument on its own. -/
def Word.of (argument : String) : Word :=
  -- An entry is whatever does not start with a minus.
  if outputMark.toList.isPrefixOf argument.toList then
    .setting (.output (String.ofList (argument.toList.drop outputMark.toList.length)))
  else if argument = "-h" ∨ argument = "--help" then .help
  else if argument = "-V" ∨ argument = "--version" then .version
  else if argument = "-o" ∨ argument = "--output" then .outputNext
  else if argument = "-m" ∨ argument = "--map" then .setting .map
  else if argument = "-p" ∨ argument = "--print" then .setting .print
  else if argument = "--crlf" then .setting .crlf
  else if argument.toList.head? = some '-' then .unknown
  else .entry

/-- What ends the settings. -/
inductive Ending where
  | help
  | version
  | entry (file : String)
  | refused (error : UsageError)
  deriving DecidableEq, Repr

/-- Settings and what ends them. -/
structure Arguments where
  settings : List Setting
  ending : Ending
  deriving DecidableEq, Repr

namespace Arguments

/-- No settings before an ending. -/
def stop (ending : Ending) : Arguments := ⟨[], ending⟩

/-- One more setting in front; an output path is not empty. -/
def push (setting : Setting) (rest : Arguments) : Arguments :=
  if setting = .output "" then stop (.refused .noOutput)
  else ⟨setting :: rest.settings, rest.ending⟩

/-- Reads arguments from the left. -/
def read : List String → Arguments
  | [] => stop (.refused .misplacedEntry)
  | argument :: rest =>
    match Word.of argument with
    | .setting setting => push setting (read rest)
    | .outputNext =>
      -- The next argument is the path whatever it looks like.
      match rest with
      | [] => stop (.refused .noOutput)
      | path :: others => push (.output path) (read others)
    | .help => stop .help
    | .version => stop .version
    | .unknown => stop (.refused (.unknownOption argument))
    | .entry => stop (if rest.isEmpty then .entry argument else .refused .misplacedEntry)

end Arguments

/-- A compilation that is asked for. -/
structure Request where
  entry : String
  output : Option String
  map : Bool
  print : Bool
  ending : LineEnding
  deriving DecidableEq, Repr

/-- The output path of a setting. -/
def Setting.output? : Setting → Option String
  | .output path => some path
  | _ => none

/-- The compilation of an entry file under settings, of which the last output path counts. -/
def Request.of (entry : String) (settings : List Setting) : Request where
  entry := entry
  output := (settings.filterMap Setting.output?).getLast?
  map := settings.contains .map
  print := settings.contains .print
  ending := if settings.contains .crlf then .crlf else .lf

/-- Whether a written path has the extension of assembly, in either case. -/
def namesAssembly (path : String) : Bool :=
  (Path.extension (Path.writtenName path)).toLower == ".s"

/-- The settings of a request go together. -/
def Request.check (request : Request) : Except UsageError Request :=
  -- The extension is looked at first.
  if request.output.any (! namesAssembly ·) then .error .outputExtension
  else if request.print && (request.output.isSome || request.map) then .error .printCombined
  else .ok request

/-- What a command line asks for. -/
inductive Invocation where
  | help
  | version
  | compile (request : Request)
  deriving DecidableEq, Repr

/-- What arguments ask for, or why they are refused. -/
def Invocation.ofArguments (arguments : List String) : Except UsageError Invocation :=
  let read := Arguments.read arguments
  match read.ending with
  | .help => .ok .help
  | .version => .ok .version
  | .refused error => .error error
  | .entry file => (Request.of file read.settings).check.map .compile

end DoubleLang.Command
