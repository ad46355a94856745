import DoubleLang.Command.Run

/-! The program: the command line on the files of the system. -/

namespace DoubleLang

/-- The reason the system gives for an error. -/
def Failure.Reason.ofError : IO.Error → Failure.Reason
  | .noFileOrDirectory _ _ _ => .noEntry
  | .alreadyExists _ _ _ => .alreadyExists
  -- One constructor covers two numbers of the system, told apart by the number itself.
  | .inappropriateType _ code _ => if code = 21 then .isDirectory else .notDirectory
  | .invalidArgument _ code details => if code = 36 then .nameTooLong else .other details
  | error => .other (toString error)

/-- Tries an action on a path, and names what was tried if it fails. -/
def attempt {α : Type} (action : Failure.Action) (work : IO α) : IO (Except Failure α) := do
  try
    return .ok (← work)
  catch error =>
    return .error (.refused (.ofError error) action)

/-- The bytes of a file of the system; a directory opens and then cannot be read. -/
def readSystemFile (path : Path) : IO (Except Failure (List UInt8)) := do
  match ← attempt (.opening path) (IO.FS.readBinFile path.text) with
  | .ok bytes => return .ok bytes.toList
  | .error (.refused .isDirectory _) => return .error (.refused .isDirectory .reading)
  | .error failure => return .error failure

/-- Makes one directory of the system. -/
def makeSystemDirectory (path : Path) : IO (Except Failure Unit) :=
  attempt (.makingDirectory path) (IO.FS.createDir path.text)

/-- Whether a path of the system is a directory, in which its own dot is found. -/
def isSystemDirectory (path : Path) : IO Bool := do
  match ← attempt (.makingDirectory path) (IO.FS.createDir (path.text ++ "/.")) with
  | .error (.refused .alreadyExists _) => return true
  | _ => return false

/-- Makes the directories that are missing on the way down. -/
def makeSystemFrom (reached : List String) : List String → IO (Except Failure Unit)
  | [] => return .ok ()
  | part :: rest => do
    let next := reached ++ [part]
    match ← makeSystemDirectory ⟨next⟩ with
    | .ok () => makeSystemFrom next rest
    | .error (.refused .alreadyExists _) => makeSystemFrom next rest
    | .error failure => return .error failure

/-- Makes a directory of the system and those above it, as far as they are missing. -/
def makeSystemDirectories (path : Path) : IO (Except Failure Unit) := do
  match ← makeSystemDirectory path with
  | .error (.refused .noEntry _) => makeSystemFrom [] path.parts
  | .error (.refused .alreadyExists action) =>
    if ← isSystemDirectory path then return .ok ()
    else return .error (.refused .alreadyExists action)
  | outcome => return outcome

/-- The actions on the files of the system. -/
def systemActions : FileAccess IO where
  read := readSystemFile
  makeDirectories := makeSystemDirectories
  write path bytes := attempt (.opening path) (IO.FS.writeBinFile path.text ⟨bytes.toArray⟩)

/-- The files of the system. -/
def systemFiles : FileAccess IO :=
  systemActions.guarded

/-- The version of the package. -/
def packageVersion : String := "0.1.0"

/-- Runs the compiler in the current directory of the process, and gives the exit code. -/
def runProcess (arguments : List String) : IO UInt32 := do
  let directory := Path.root.resolve (← IO.currentDir).toString
  let report ← Command.run packageVersion systemFiles directory arguments
  (← IO.getStdout).putStr report.output
  (← IO.getStderr).putStr report.errors
  return report.code.toUInt32

end DoubleLang

/-- Runs the compiler on the arguments of the process. -/
def main (arguments : List String) : IO UInt32 :=
  DoubleLang.runProcess arguments
