import DoubleLang.Command.Arguments
import DoubleLang.File.Compile

/-! The command line: what a run prints, writes and answers. -/

namespace DoubleLang.Command

/-- What a run leaves behind besides files. -/
structure Report where
  /-- Zero for success, one for a failed compilation, two for refused arguments. -/
  code : Nat
  output : String := ""
  errors : String := ""
  deriving DecidableEq, Repr

/-- The help text. -/
def usage : String :=
  LineEnding.lf.join [
    "dblc [options] <entry.dbl>",
    "",
    "Options:",
    "  -o, --output <file>   Assembly output path (must end with .s)",
    "  -m, --map             Also write <base>.map",
    "  -p, --print           Print assembly to stdout instead of writing files",
    "      --crlf            Use CRLF line endings",
    "  -V, --version         Print version",
    "  -h, --help            Show help",
    "",
    "Artifacts go next to the entry file unless --output is given.",
    "The entry file must be the last argument."]

/-- A failure in the name of the compiler. -/
def complaint (message : String) : String :=
  "dblc: " ++ message ++ "\n"

/-- The path of the artifacts without extension: that of the output, or else of the entry. -/
def Request.base (request : Request) (directory : Path) : Path :=
  let target := directory.resolve (request.output.getD request.entry)
  -- A stem may be made of dots, and is followed like any written part.
  target.parent.resolve (Path.stem target.name)

/-- The extension of an artifact. -/
def suffix : Artifact.Kind → String
  | .assembly => ".s"
  | .map => ".map"

variable {m : Type → Type} [Monad m]

/-- Writes artifacts beside a base; every one is tried, and the first failure is reported. -/
def writeAll (files : FileAccess m) (base : Path) (artifacts : List Artifact) :
    m (Except Failure Unit) := do
  match ← files.makeDirectories base.parent with
  | .error failure => return .error failure
  | .ok () =>
    -- A failed write does not keep the others from being tried.
    let outcomes ← artifacts.mapM fun artifact =>
      files.write (base.extend (suffix artifact.kind)) (Text.encode artifact.text)
    return outcomes.foldr (fun outcome rest => outcome.bind fun _ => rest) (.ok ())

/-- The text of the assembly among artifacts. -/
def printed (artifacts : List Artifact) : String :=
  String.join ((artifacts.filter (·.kind = .assembly)).map Artifact.text)

/-- Compiles the entry file of a request, and writes or prints what comes of it. -/
def Request.run (request : Request) (files : FileAccess m) (directory : Path) : m Report := do
  let options : Options := ⟨true, request.map, request.ending⟩
  let made ← Compilation.ofFile files directory request.entry options {}
  let log := String.join (made.diagnostics.map Diagnostic.render)
  -- After an error nothing is written and nothing printed.
  if Diagnostic.anyError made.diagnostics then return { code := 1, errors := log }
  else if request.print then
    return { code := 0, output := printed made.artifacts, errors := log }
  else
    let base := request.base directory
    match ← writeAll files base made.artifacts with
    | .ok () =>
      return { code := 0, output := (base.extend (suffix .assembly)).text ++ "\n", errors := log }
    | .error failure => return { code := 1, errors := log ++ complaint failure.message }

/-- Runs a command line in a directory, for a compiler whose package is of a version. -/
def run (version : String) (files : FileAccess m) (directory : Path) (arguments : List String) :
    m Report :=
  match Invocation.ofArguments arguments with
  | .error error => return { code := 2, errors := complaint error.message ++ usage ++ "\n" }
  | .ok .help => return { code := 0, output := usage }
  | .ok .version => return { code := 0, output := version ++ "\n" }
  | .ok (.compile request) => request.run files directory

end DoubleLang.Command
