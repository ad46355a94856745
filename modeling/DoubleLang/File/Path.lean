/-! Absolute paths, and the rules by which a written path names one. -/

namespace DoubleLang

/-- An absolute path by its parts, none of them empty, a single dot or two dots. -/
structure Path where
  parts : List String
  deriving DecidableEq, Repr

namespace Path

/-- The path at which all paths start. -/
def root : Path := ⟨[]⟩

/-- The parts of a written path, empty ones included. -/
def split (text : String) : List String :=
  (text.toList.splitOn '/').map String.ofList

/-- Follows one written part: an empty one and a dot stay, two dots go up, any other goes down. -/
def follow (parts : List String) (part : String) : List String :=
  if part = "" ∨ part = "." then parts
  else if part = ".." then parts.dropLast
  else parts ++ [part]

/-- The path that a written path names, seen from a directory. -/
def resolve (directory : Path) (text : String) : Path :=
  -- A written path that starts with a slash does not depend on the directory.
  let start := if text.toList.head? = some '/' then [] else directory.parts
  ⟨(split text).foldl follow start⟩

/-- A path as it is written. -/
def text (path : Path) : String :=
  "/" ++ String.intercalate "/" path.parts

/-- The path of the directory that holds a path; the root holds itself. -/
def parent (path : Path) : Path :=
  ⟨path.parts.dropLast⟩

/-- The last part of a path. -/
def name (path : Path) : String :=
  path.parts.getLastD ""

/-- The last part of a written path that is not empty. -/
def writtenName (text : String) : String :=
  ((split text).filter (· ≠ "")).getLastD ""

/-- The extension of a name: from its last dot on, unless that is its first character. -/
def extension (name : String) : String :=
  -- A dot in front makes a name hidden and starts no extension.
  let reversed := name.toList.reverse
  match reversed.dropWhile (· ≠ '.') with
  | [] => ""
  | [_] => ""
  | _ :: _ =>
    if name = ".." then ""
    else String.ofList ('.' :: (reversed.takeWhile (· ≠ '.')).reverse)

/-- A name without its extension. -/
def stem (name : String) : String :=
  String.ofList (name.toList.take (name.toList.length - (extension name).toList.length))

/-- The path with more text at its end. -/
def extend (path : Path) (more : String) : Path :=
  ⟨path.parts.dropLast ++ [path.name ++ more]⟩

end Path

end DoubleLang
