import DoubleLang.File.Path
import DoubleLang.Text.Quoted

/-! What a program may do with files, and why that can fail. -/

namespace DoubleLang

/-- Why the system refuses an action. -/
inductive Failure.Reason where
  | noEntry
  | notDirectory
  | isDirectory
  | alreadyExists
  | nameTooLong
  /-- Any other reason, in the system's words. -/
  | other (text : String)
  deriving DecidableEq, Repr

/-- What was tried. -/
inductive Failure.Action where
  | opening (path : Path)
  /-- Reading what has been opened. -/
  | reading
  | makingDirectory (path : Path)
  deriving DecidableEq, Repr

/-- Why an action on files fails. -/
inductive Failure where
  /-- The system refuses the action. -/
  | refused (reason : Failure.Reason) (action : Failure.Action)
  /-- The path holds the character zero, and the system is not asked. -/
  | zeroInPath (path : Path)
  deriving DecidableEq, Repr

namespace Failure

/-- The system's words for a reason. -/
def Reason.text : Reason → String
  | .noEntry => "ENOENT: no such file or directory"
  | .notDirectory => "ENOTDIR: not a directory"
  | .isDirectory => "EISDIR: illegal operation on a directory"
  | .alreadyExists => "EEXIST: file already exists"
  | .nameTooLong => "ENAMETOOLONG: name too long"
  | .other text => text

/-- The system's words for an action. -/
def Action.text : Action → String
  | .opening path => "open '" ++ path.text ++ "'"
  | .reading => "read"
  | .makingDirectory path => "mkdir '" ++ path.text ++ "'"

/-- The wording of a failure. -/
def message : Failure → String
  | .refused reason action => reason.text ++ ", " ++ action.text
  | .zeroInPath path =>
    "The argument 'path' must be a string, Uint8Array, or URL without null bytes. Received " ++
      Text.shown path.text.toList

/-- The sort of a failure. -/
def sort : Failure → String
  | .refused _ _ => "Error"
  | .zeroInPath _ => "TypeError [ERR_INVALID_ARG_VALUE]"

/-- The wording of a failure behind its sort. -/
def full (failure : Failure) : String :=
  failure.sort ++ ": " ++ failure.message

end Failure

/-- The actions on files that a compiler needs. -/
structure FileAccess (m : Type → Type) where
  /-- The bytes of a file. -/
  read : Path → m (Except Failure (List UInt8))
  /-- Makes a directory and those above it, as far as they are missing. -/
  makeDirectories : Path → m (Except Failure Unit)
  /-- Makes a file hold some bytes and nothing else. -/
  write : Path → List UInt8 → m (Except Failure Unit)

/-- Does work on a path unless the path holds the character zero, at which a system ends names. -/
def Path.guard {m : Type → Type} [Monad m] {α : Type} (path : Path)
    (work : m (Except Failure α)) : m (Except Failure α) :=
  if path.text.toList.contains '\x00' then return .error (.zeroInPath path) else work

/-- The same actions, tried only on paths that a system can take. -/
def FileAccess.guarded {m : Type → Type} [Monad m] (files : FileAccess m) : FileAccess m where
  read path := path.guard (files.read path)
  makeDirectories path := path.guard (files.makeDirectories path)
  write path bytes := path.guard (files.write path bytes)

end DoubleLang
