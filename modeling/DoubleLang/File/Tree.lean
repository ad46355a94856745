import DoubleLang.File.Access

/-! Files and directories as a value, with the rules by which they are read, made and written. -/

namespace DoubleLang

/-- What stands at a path. -/
inductive Entry where
  | file (bytes : List UInt8)
  | directory
  deriving DecidableEq, Repr

/-- Files and directories by their paths. -/
structure FileTree where
  entries : List (Path × Entry)
  deriving DecidableEq, Repr

namespace FileTree

/-- The greatest number of bytes in a name. -/
def nameLimit : Nat := 255

/-- The greatest number of bytes in a written path. -/
def pathLimit : Nat := 4095

/-- What stands at a path; the root is always a directory. -/
def lookup (tree : FileTree) (path : Path) : Option Entry :=
  if path = .root then some .directory else tree.entries.lookup path

/-- Puts an entry at a path in a list: in place of the old one, or at the end. -/
def putIn (path : Path) (entry : Entry) : List (Path × Entry) → List (Path × Entry)
  | [] => [(path, entry)]
  | (known, old) :: rest =>
    if known = path then (known, entry) :: rest else (known, old) :: putIn path entry rest

/-- Puts an entry at a path. -/
def put (tree : FileTree) (path : Path) (entry : Entry) : FileTree :=
  ⟨putIn path entry tree.entries⟩

/-- What has been put at a path other than the root is found there. -/
theorem lookup_put_self (tree : FileTree) {path : Path} (entry : Entry) (below : path ≠ .root) :
    (tree.put path entry).lookup path = some entry := by
  -- The entry takes the first place of its path, where look-up finds it.
  obtain ⟨entries⟩ := tree
  simp only [lookup, if_neg below, put]
  induction entries with
  | nil => simp [putIn]
  | cons first rest ih =>
    obtain ⟨known, old⟩ := first
    by_cases same : known = path
    · simp [putIn, same]
    · have differ : (path == known) = false := beq_false_of_ne (Ne.symm same)
      simp only [putIn, if_neg same, List.lookup_cons, differ, ih]

/-- Putting an entry at a path leaves all other paths as they were. -/
theorem lookup_put_of_ne (tree : FileTree) {path other : Path} (entry : Entry)
    (different : other ≠ path) : (tree.put path entry).lookup other = tree.lookup other := by
  -- The root is asked about first, and no entry of another path changes.
  obtain ⟨entries⟩ := tree
  simp only [lookup, put]
  congr 1
  induction entries with
  | nil => simp [putIn, List.lookup_cons, beq_false_of_ne different]
  | cons first rest ih =>
    obtain ⟨known, old⟩ := first
    by_cases same : known = path
    · subst same
      simp [putIn, List.lookup_cons, beq_false_of_ne different]
    · simp only [putIn, if_neg same, List.lookup_cons, ih]

/-- Whether a name has more bytes than names may have. -/
def tooLong (name : String) : Bool :=
  nameLimit < name.utf8ByteSize

/-- Walks down from a path that has been reached. -/
def walkFrom (tree : FileTree) (reached : List String) :
    List String → Except Failure.Reason Entry
  | [] =>
    match tree.lookup ⟨reached⟩ with
    | some entry => .ok entry
    | none => .error .noEntry
  | part :: rest =>
    match tree.lookup ⟨reached⟩ with
    | some .directory =>
      -- A name is measured before it is looked for.
      if tooLong part then .error .nameTooLong else walkFrom tree (reached ++ [part]) rest
    | some (.file _) => .error .notDirectory
    | none => .error .noEntry

/-- What is found at a path, or the first obstacle on the way to it. -/
def walk (tree : FileTree) (path : Path) : Except Failure.Reason Entry :=
  -- The length of the whole path is checked before any part of it.
  if pathLimit < path.text.utf8ByteSize then .error .nameTooLong
  else walkFrom tree [] path.parts

/-- The bytes of the file at a path. -/
def read (tree : FileTree) (path : Path) : Except Failure (List UInt8) :=
  match tree.walk path with
  | .ok (.file bytes) => .ok bytes
  | .ok .directory => .error (.refused .isDirectory .reading)
  | .error reason => .error (.refused reason (.opening path))

/-- Makes the directories that are missing on the way down; those made before a failure stay. -/
def makeFrom (tree : FileTree) (reached : List String) :
    List String → FileTree × Except Failure Unit
  | [] => (tree, .ok ())
  | part :: rest =>
    let next := reached ++ [part]
    match tree.lookup ⟨next⟩ with
    | some _ => makeFrom tree next rest
    | none =>
      if tooLong part then (tree, .error (.refused .nameTooLong (.makingDirectory ⟨next⟩)))
      else makeFrom (tree.put ⟨next⟩ .directory) next rest

/-- Makes a directory and those above it, as far as they are missing. -/
def makeDirectories (tree : FileTree) (path : Path) : FileTree × Except Failure Unit :=
  match tree.walk path with
  | .ok .directory => (tree, .ok ())
  | .ok (.file _) => (tree, .error (.refused .alreadyExists (.makingDirectory path)))
  | .error .noEntry => makeFrom tree [] path.parts
  | .error reason => (tree, .error (.refused reason (.makingDirectory path)))

/-- Makes the file at a path hold some bytes; its directory has to be there. -/
def write (tree : FileTree) (path : Path) (bytes : List UInt8) :
    FileTree × Except Failure Unit :=
  match tree.walk path with
  | .ok (.file _) => (tree.put path (.file bytes), .ok ())
  | .ok .directory => (tree, .error (.refused .isDirectory (.opening path)))
  | .error .noEntry =>
    -- A missing file is made in its directory, and a missing directory is not.
    if tree.lookup path.parent = some .directory then (tree.put path (.file bytes), .ok ())
    else (tree, .error (.refused .noEntry (.opening path)))
  | .error reason => (tree, .error (.refused reason (.opening path)))

/-- The actions on files kept in a value, whatever their paths hold. -/
def actions : FileAccess (StateM FileTree) where
  read path := do return (← get).read path
  makeDirectories path := do
    let (tree, outcome) := (← get).makeDirectories path
    set tree
    return outcome
  write path bytes := do
    let (tree, outcome) := (← get).write path bytes
    set tree
    return outcome

/-- Files kept in a value. -/
def access : FileAccess (StateM FileTree) :=
  actions.guarded

end FileTree

end DoubleLang
