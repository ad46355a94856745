import DoubleLang.Compilation
import DoubleLang.File.Access
import DoubleLang.Text.Utf8

/-! Compilations that start from a file. -/

namespace DoubleLang.Compilation

/-- The report of an entry file that cannot be read. -/
def unreadable (path : Path) (failure : Failure) : Diagnostic :=
  ⟨.unreadable, .error, "Failed to read entry file: " ++ failure.full, path.text, none⟩

/-- Compiles the file that a written path names, seen from a directory. -/
def ofFile {m : Type → Type} [Monad m] (files : FileAccess m) (directory : Path) (entry : String)
    (options : Options) (writers : Writers) : m Compilation := do
  -- Reports name the file by its resolved path.
  let path := directory.resolve entry
  match ← files.read path with
  | .ok bytes => return ofText (Text.decode bytes) options writers path.text
  | .error failure => return ⟨[unreadable path failure], []⟩

end DoubleLang.Compilation
