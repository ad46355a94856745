import DoubleLang.File.Tree

/-!
What actions on a tree do to its regular files, and when they succeed.

Reading changes nothing, and making directories changes no file. Writing changes the file at its own
path and no other. A file can be written where nothing is in its way: its path is one that a system
takes, nothing but directories stands above it, and no directory stands in its place.
-/

namespace DoubleLang

/-- More text at the end of a path makes a name below the root. -/
theorem Path.extend_ne_root (path : Path) (more : String) : path.extend more ≠ .root := by
  simp [extend, root]

/-- Different texts at the end of a path make different paths. -/
theorem Path.extend_inj {path : Path} {first second : String} :
    path.extend first = path.extend second ↔ first = second := by
  simp [extend]

/-- More text at the end of a path leaves it in its directory. -/
theorem Path.parent_extend (path : Path) (more : String) :
    (path.extend more).parent = path.parent := by
  simp [extend, parent]

/-- More text at the end of a path leaves it one part deeper than its directory. -/
theorem Path.length_extend (path : Path) (more : String) :
    (path.extend more).parts.length = path.parent.parts.length + 1 := by
  simp [extend, parent]

/-- A path below the root is its name in the directory above it. -/
theorem Path.parts_eq {path : Path} (below : path ≠ .root) :
    path.parts = path.parent.parts ++ [path.name] := by
  -- A path without parts is the root.
  have filled : path.parts ≠ [] := by
    intro empty
    exact below (by rw [root, ← empty])
  rw [parent, name, List.getLastD_eq_getLast?, List.getLast?_eq_some_getLast filled]
  exact (List.dropLast_concat_getLast filled).symm

/-- Parts between marks start with what they start with when one more part follows. -/
private theorem Path.intercalate_prefix (mark : List Char) (parts : List (List Char))
    (last : List Char) :
    mark.intercalate parts <+: mark.intercalate (parts ++ [last]) := by
  -- The mark in front of the last part is the only one that is new.
  induction parts with
  | nil => simp
  | cons part rest ih =>
    cases rest with
    | nil => simp [List.intercalate_cons_cons, List.prefix_append]
    | cons next later =>
      simpa only [List.cons_append, List.intercalate_cons_cons, List.append_assoc,
        List.prefix_append_right_inj] using ih

/-- A path is written behind the directory above it. -/
private theorem Path.text_eq {path : Path} (below : path ≠ .root) :
    ∃ rest, path.text = path.parent.text ++ rest := by
  -- The text of a path is its parts between slashes, and the parent has all but the last.
  obtain ⟨rest, written⟩ := intercalate_prefix ['/'] (path.parent.parts.map String.toList)
    path.name.toList
  refine ⟨String.ofList rest, String.toList_inj.mp ?_⟩
  rw [text, parts_eq below, text]
  simpa [String.toList_intercalate] using written.symm

namespace FileTree

variable {tree : FileTree} {path other : Path}

/-- The bytes of the regular file at a path, if there is one. -/
def fileAt (tree : FileTree) (path : Path) : Option (List UInt8) :=
  match tree.lookup path with
  | some (.file bytes) => some bytes
  | _ => none

/-- Two trees have the same regular files but for those at some paths. -/
def SameFilesBut (paths : List Path) (before after : FileTree) : Prop :=
  ∀ path ∉ paths, after.fileAt path = before.fileAt path

/-- A tree has the files it has. -/
theorem SameFilesBut.refl (paths : List Path) (tree : FileTree) : SameFilesBut paths tree tree :=
  fun _ _ => rfl

/-- What both of two changes leave alone is left alone by both together. -/
theorem SameFilesBut.trans {paths : List Path} {first second third : FileTree}
    (before : SameFilesBut paths first second) (behind : SameFilesBut paths second third) :
    SameFilesBut paths first third :=
  fun path apart => (behind path apart).trans (before path apart)

/-- More paths may be left out. -/
theorem SameFilesBut.mono {paths more : List Path} {before after : FileTree}
    (same : SameFilesBut paths before after) (subset : paths ⊆ more) :
    SameFilesBut more before after :=
  fun path apart => same path fun member => apart (subset member)

/-- A file that has been put at a path is found there. -/
theorem fileAt_put_self (tree : FileTree) (bytes : List UInt8) (below : path ≠ .root) :
    (tree.put path (.file bytes)).fileAt path = some bytes := by
  rw [fileAt, lookup_put_self tree _ below]

/-- An entry changes no file but the one in its place. -/
theorem sameFilesBut_put (tree : FileTree) (path : Path) (entry : Entry) :
    SameFilesBut [path] tree (tree.put path entry) := by
  intro other apart
  rw [fileAt, lookup_put_of_ne tree entry (by simpa using apart), fileAt]

/-- A directory in a free place changes no file. -/
private theorem sameFiles_put_directory (free : tree.lookup path = none) :
    SameFilesBut [] tree (tree.put path .directory) := by
  intro other _
  by_cases same : other = path
  · -- There was no file in the free place, and there is none in the directory's.
    subst same
    have below : other ≠ .root := by
      intro top
      simp [lookup, top] at free
    rw [fileAt, lookup_put_self tree _ below, fileAt, free]
  · exact sameFilesBut_put tree path .directory other (by simpa using same)

/-- Making directories on the way down changes no file. -/
private theorem sameFiles_makeFrom (tree : FileTree) (reached parts : List String) :
    SameFilesBut [] tree (tree.makeFrom reached parts).1 := by
  -- Each part that is missing puts a directory in a free place.
  induction parts generalizing tree reached with
  | nil => exact .refl [] tree
  | cons part rest ih =>
    simp only [makeFrom]
    split
    · exact ih tree _
    · rename_i free
      split
      · exact .refl [] tree
      · exact (sameFiles_put_directory free).trans (ih _ _)

/-- Making a directory and those above it changes no file. -/
private theorem sameFiles_makeDirectories (tree : FileTree) (path : Path) :
    SameFilesBut [] tree (tree.makeDirectories path).1 := by
  -- Only a missing entry leads to anything new; all other walks change nothing.
  unfold makeDirectories
  split
  · exact .refl [] tree
  · exact .refl [] tree
  · exact sameFiles_makeFrom tree [] path.parts
  · exact .refl [] tree

/-- Writing puts a file at its path, or it fails and changes nothing. -/
private theorem write_cases (tree : FileTree) (path : Path) (bytes : List UInt8) :
    tree.write path bytes = (tree.put path (.file bytes), .ok ()) ∨
      ∃ failure, tree.write path bytes = (tree, .error failure) := by
  -- The walk ends at a file, at a directory, at a free place or before it.
  unfold write
  split
  · exact .inl rfl
  · exact .inr ⟨_, rfl⟩
  · split
    · exact .inl rfl
    · exact .inr ⟨_, rfl⟩
  · exact .inr ⟨_, rfl⟩

/-- What reading the file at a path gives, if the path is one that a system can take. -/
def contents (tree : FileTree) (path : Path) : Except Failure (List UInt8) :=
  if path.text.toList.contains '\x00' then .error (.zeroInPath path) else tree.read path

/-- Reading gives the contents and changes nothing. -/
theorem run_read (tree : FileTree) (path : Path) :
    (access.read path).run tree = (tree.contents path, tree) := by
  simp only [access, FileAccess.guarded, Path.guard, contents]
  split <;> rfl

/-- On a path that a system can take a directory is made as in the tree. -/
private theorem run_makeDirectories_of_plain (tree : FileTree) (plain : '\x00' ∉ path.text.toList) :
    (access.makeDirectories path).run tree = (tree.makeDirectories path).swap := by
  -- The guard lets such a path through.
  have taken : path.text.toList.contains '\x00' = false := by simpa using plain
  simp only [access, FileAccess.guarded, Path.guard, taken]
  rfl

/-- On a path that a system can take a file is written as in the tree. -/
private theorem run_write_of_plain (tree : FileTree) (bytes : List UInt8)
    (plain : '\x00' ∉ path.text.toList) :
    (access.write path bytes).run tree = (tree.write path bytes).swap := by
  -- The guard lets such a path through.
  have taken : path.text.toList.contains '\x00' = false := by simpa using plain
  simp only [access, FileAccess.guarded, Path.guard, taken]
  rfl

/-- Making a directory changes no file. -/
theorem run_makeDirectories (tree : FileTree) (path : Path) :
    SameFilesBut [] tree ((access.makeDirectories path).run tree).2 := by
  by_cases plain : '\x00' ∈ path.text.toList
  · -- A path that a system cannot take is not tried.
    have refused : path.text.toList.contains '\x00' = true := by simpa using plain
    simp only [access, FileAccess.guarded, Path.guard, refused]
    exact .refl [] tree
  · rw [run_makeDirectories_of_plain tree plain]
    exact sameFiles_makeDirectories tree path

/-- Writing puts a file at its path, or it fails and changes nothing. -/
theorem run_write (tree : FileTree) (path : Path) (bytes : List UInt8) :
    (access.write path bytes).run tree = (.ok (), tree.put path (.file bytes)) ∨
      ∃ failure, (access.write path bytes).run tree = (.error failure, tree) := by
  -- A path that a system cannot take is not tried.
  by_cases plain : '\x00' ∈ path.text.toList
  · have refused : path.text.toList.contains '\x00' = true := by simpa using plain
    simp only [access, FileAccess.guarded, Path.guard, refused]
    exact .inr ⟨_, rfl⟩
  · rw [run_write_of_plain tree bytes plain]
    rcases write_cases tree path bytes with written | ⟨failure, failed⟩
    · exact .inl (by rw [written]; rfl)
    · exact .inr ⟨failure, by rw [failed]; rfl⟩

/-- Something holds of what stands at a path that has been reached and all the way down from it. -/
def Along (tree : FileTree) (holds : Option Entry → Prop) (reached : List String) :
    List String → Prop
  | [] => holds (tree.lookup ⟨reached⟩)
  | part :: rest => holds (tree.lookup ⟨reached⟩) ∧ tree.Along holds (reached ++ [part]) rest

/-- A directory, or a place where one can be made. -/
def Passes (found : Option Entry) : Prop :=
  found = some .directory ∨ found = none

/-- Directories stand all the way down to a path. -/
def Open (tree : FileTree) (path : Path) : Prop :=
  tree.Along (· = some .directory) [] path.parts

/-- Nothing but directories stands on the way down to a path. -/
def Passable (tree : FileTree) (path : Path) : Prop :=
  tree.Along Passes [] path.parts

/-- Nothing is in the way of a file at a path. -/
structure Clear (tree : FileTree) (path : Path) : Prop where
  /-- A system can take the path. -/
  plain : '\x00' ∉ path.text.toList
  short : path.text.utf8ByteSize ≤ pathLimit
  names : ∀ part ∈ path.parts, tooLong part = false
  way : tree.Passable path.parent
  /-- No directory stands in the place of the file. -/
  place : tree.lookup path ≠ some .directory

/-- What holds along a way holds where it starts. -/
theorem Along.head {holds : Option Entry → Prop} {reached parts : List String}
    (along : tree.Along holds reached parts) : holds (tree.lookup ⟨reached⟩) := by
  -- The way starts with the path in hand, be it the last one or not.
  cases parts with
  | nil => exact along
  | cons part rest => exact along.1

/-- What holds along a way holds where it ends. -/
theorem Along.last {holds : Option Entry → Prop} {reached parts : List String}
    (along : tree.Along holds reached parts) : holds (tree.lookup ⟨reached ++ parts⟩) := by
  -- The rest of the way starts one part further down.
  induction parts generalizing reached with
  | nil =>
    rw [List.append_nil]
    exact along
  | cons part rest ih =>
    have below := ih along.2
    rwa [List.append_assoc] at below

/-- The way down has to do with the paths on it alone. -/
theorem Along.congr {holds : Option Entry → Prop} {changed : FileTree} {reached parts : List String}
    (along : tree.Along holds reached parts)
    (same : ∀ other : Path, reached.length ≤ other.parts.length →
      other.parts.length ≤ reached.length + parts.length →
      changed.lookup other = tree.lookup other) :
    changed.Along holds reached parts := by
  -- Paths on the way are no shorter than its start and no longer than its end.
  induction parts generalizing reached with
  | nil =>
    rw [Along, same ⟨reached⟩ (by simp) (by simp)]
    exact along
  | cons part rest ih =>
    have longer : (reached ++ [part]).length = reached.length + 1 := by simp
    have whole : (part :: rest).length = rest.length + 1 := by simp
    refine ⟨?_, ih along.2 fun other lower upper => same other (by omega) (by omega)⟩
    rw [same ⟨reached⟩ (by simp) (by simp)]
    exact along.1

/-- A walk down a passable way finds directories to the end, or it misses one. -/
private theorem walkFrom_of_passable {reached parts : List String}
    (names : ∀ part ∈ parts, tooLong part = false)
    (way : tree.Along Passes reached parts) :
    (tree.walkFrom reached parts = .ok .directory ∧
      tree.Along (· = some .directory) reached parts) ∨
    tree.walkFrom reached parts = .error .noEntry := by
  -- The walk ends where the first directory is missing.
  induction parts generalizing reached with
  | nil =>
    rcases way with found | missing
    · exact .inl ⟨by simp [walkFrom, found], found⟩
    · exact .inr (by simp [walkFrom, missing])
  | cons part rest ih =>
    rw [List.forall_mem_cons] at names
    rcases way.1 with found | missing
    · rcases ih names.2 way.2 with ⟨walked, down⟩ | missing
      · exact .inl ⟨by simp [walkFrom, found, names.1, walked], found, down⟩
      · exact .inr (by simp [walkFrom, found, names.1, missing])
    · exact .inr (by simp [walkFrom, missing])

/-- A walk down directories comes to what stands below the last of them. -/
private theorem walkFrom_of_open {reached parts : List String} {name : String}
    (names : ∀ part ∈ parts ++ [name], tooLong part = false)
    (down : tree.Along (· = some .directory) reached parts) :
    tree.walkFrom reached (parts ++ [name]) = tree.walkFrom (reached ++ (parts ++ [name])) [] := by
  -- Each directory on the way lets the walk go one part further.
  induction parts generalizing reached with
  | nil =>
    rw [List.forall_mem_append] at names
    have short := names.2 name (by simp)
    have here : tree.lookup ⟨reached⟩ = some .directory := down
    simp [walkFrom, here, short]
  | cons part rest ih =>
    rw [List.cons_append, List.forall_mem_cons] at names
    have below := ih names.2 down.2
    have step : tree.walkFrom reached (part :: (rest ++ [name])) =
        tree.walkFrom (reached ++ [part]) (rest ++ [name]) := by
      simp [walkFrom, down.1, names.1]
    rw [List.cons_append, step, below, List.append_assoc, List.singleton_append]

/-- Making directories on the way down leaves paths alone that are not as deep, or deeper. -/
private theorem lookup_makeFrom (tree : FileTree) {reached parts : List String}
    (outside : other.parts.length ≤ reached.length ∨
      reached.length + parts.length < other.parts.length) :
    (tree.makeFrom reached parts).1.lookup other = tree.lookup other := by
  -- What is made is deeper than the start, and no deeper than the end.
  induction parts generalizing tree reached with
  | nil => rfl
  | cons part rest ih =>
    have longer : (reached ++ [part]).length = reached.length + 1 := by simp
    have whole : (part :: rest).length = rest.length + 1 := by simp
    have deeper : other.parts.length ≤ (reached ++ [part]).length ∨
        (reached ++ [part]).length + rest.length < other.parts.length := by
      omega
    have differ : other ≠ ⟨reached ++ [part]⟩ := by
      intro same
      rw [same] at outside
      dsimp only at outside
      omega
    simp only [makeFrom]
    split
    · exact ih tree deeper
    · split
      · rfl
      · rw [ih _ deeper, lookup_put_of_ne tree _ differ]

/-- A way stays passable when a directory is put where it starts. -/
private theorem Along.put_start {reached parts : List String} (below : (⟨reached⟩ : Path) ≠ .root)
    (way : tree.Along Passes reached parts) :
    (tree.put ⟨reached⟩ .directory).Along Passes reached parts := by
  -- The start is the directory that was put there.
  have start := lookup_put_self tree .directory below
  cases parts with
  | nil => exact .inl start
  | cons part rest =>
    refine ⟨.inl start, way.2.congr fun other lower _ => lookup_put_of_ne tree _ ?_⟩
    -- All other paths on the way are deeper.
    have longer : (reached ++ [part]).length = reached.length + 1 := by simp
    intro same
    rw [same] at lower
    dsimp only at lower
    omega

/-- On a passable way all missing directories are made. -/
private theorem makeFrom_of_passable {tree : FileTree} {reached parts : List String}
    (names : ∀ part ∈ parts, tooLong part = false)
    (start : tree.lookup ⟨reached⟩ = some .directory)
    (way : tree.Along Passes reached parts) :
    (tree.makeFrom reached parts).2 = .ok () ∧
      (tree.makeFrom reached parts).1.Along (· = some .directory) reached parts := by
  -- The way is made part by part, from a directory that is there.
  induction parts generalizing tree reached with
  | nil => exact ⟨rfl, start⟩
  | cons part rest ih =>
    rw [List.forall_mem_cons] at names
    -- Whatever is made further down, the directory that has been reached stays.
    have stays (changed : FileTree) (same : changed.lookup ⟨reached⟩ = some .directory) :
        (changed.makeFrom (reached ++ [part]) rest).1.lookup ⟨reached⟩ = some .directory := by
      rw [lookup_makeFrom changed (.inl (by simp)), same]
    simp only [makeFrom]
    -- The next directory is there already, or its place is free and it is made.
    rcases way.2.head with found | free
    · obtain ⟨made, down⟩ := ih names.2 found way.2
      simp only [found]
      exact ⟨made, stays tree start, down⟩
    · have below : (⟨reached ++ [part]⟩ : Path) ≠ .root := by simp [Path.root]
      have put := lookup_put_self tree .directory below
      have kept : (tree.put ⟨reached ++ [part]⟩ .directory).lookup ⟨reached⟩ = some .directory := by
        rw [lookup_put_of_ne tree _ (by simp), start]
      obtain ⟨made, down⟩ := ih names.2 put (way.2.put_start below)
      simp only [free, names.1]
      exact ⟨made, stays _ kept, down⟩

/-- The directories on a passable way are all there when the last of them has been made. -/
private theorem makeDirectories_of_passable (short : path.text.utf8ByteSize ≤ pathLimit)
    (names : ∀ part ∈ path.parts, tooLong part = false) (way : tree.Passable path) :
    (tree.makeDirectories path).2 = .ok () ∧ (tree.makeDirectories path).1.Open path := by
  -- A path within the limits is walked part by part.
  have walked : tree.walk path = tree.walkFrom [] path.parts := by
    rw [walk, if_neg (by omega)]
  unfold makeDirectories
  -- Either all directories are there, or one is missing and making starts from the root.
  rcases walkFrom_of_passable names way with ⟨found, down⟩ | missing
  · simp only [walked, found, true_and]
    exact down
  · simp only [walked, missing]
    exact makeFrom_of_passable names (by simp [lookup, Path.root]) way

/-- Making directories leaves deeper paths alone. -/
private theorem lookup_makeDirectories (tree : FileTree)
    (deeper : path.parts.length < other.parts.length) :
    (tree.makeDirectories path).1.lookup other = tree.lookup other := by
  -- Only a missing entry leads to anything new, and all that is made lies on the way.
  unfold makeDirectories
  split
  · rfl
  · rfl
  · exact lookup_makeFrom tree (.inr (by simpa using deeper))
  · rfl

/-- In a directory that is there a file is written, unless a directory stands in its place. -/
private theorem Clear.write_eq (clear : tree.Clear path) (below : path ≠ .root)
    (down : tree.Open path.parent) (bytes : List UInt8) :
    tree.write path bytes = (tree.put path (.file bytes), .ok ()) := by
  -- The directory above is there, so the walk comes as far as the file.
  have parts := Path.parts_eq below
  have short := clear.short
  have names : ∀ part ∈ path.parent.parts ++ [path.name], tooLong part = false := by
    rw [← parts]
    exact clear.names
  have walked : tree.walk path = tree.walkFrom path.parts [] := by
    rw [walk, if_neg (by omega), parts, walkFrom_of_open names down, List.nil_append]
  have above : tree.lookup path.parent = some .directory := down.last
  unfold write
  -- What the walk comes to is an old file or a free place.
  cases found : tree.lookup path with
  | none => simp [walked, walkFrom, found, above]
  | some entry =>
    cases entry with
    | file old => simp [walked, walkFrom, found]
    | directory => exact absurd found clear.place

/-- The directory of a clear path is made, and then directories stand all the way down to it. -/
theorem Clear.run_makeDirectories (clear : tree.Clear path) (below : path ≠ .root) :
    ∃ after, (access.makeDirectories path.parent).run tree = (.ok (), after) ∧
      after.Open path.parent ∧
      ∀ other : Path, path.parent.parts.length < other.parts.length →
        after.lookup other = tree.lookup other := by
  -- The directory is written in fewer characters of the same, and has the same names in it.
  obtain ⟨rest, written⟩ := Path.text_eq below
  have plain : '\x00' ∉ path.parent.text.toList := by
    have whole := clear.plain
    rw [written, String.toList_append, List.mem_append, not_or] at whole
    exact whole.1
  have short : path.parent.text.utf8ByteSize ≤ pathLimit := by
    have whole := clear.short
    rw [written, String.utf8ByteSize_append] at whole
    omega
  have names : ∀ part ∈ path.parent.parts, tooLong part = false := by
    have whole := clear.names
    rw [Path.parts_eq below, List.forall_mem_append] at whole
    exact whole.1
  obtain ⟨made, down⟩ := makeDirectories_of_passable short names clear.way
  refine ⟨(tree.makeDirectories path.parent).1, ?_, down, ?_⟩
  · rw [run_makeDirectories_of_plain tree plain]
    exact Prod.ext made rfl
  · exact fun other deeper => lookup_makeDirectories tree deeper

/-- In a directory that is there a clear file is written. -/
theorem Clear.run_write (clear : tree.Clear path) (below : path ≠ .root)
    (down : tree.Open path.parent) (bytes : List UInt8) :
    (access.write path bytes).run tree = (.ok (), tree.put path (.file bytes)) := by
  rw [run_write_of_plain tree bytes clear.plain, clear.write_eq below down bytes]
  rfl

/-- What is put deeper down leaves a way alone. -/
theorem Along.put_deeper {holds : Option Entry → Prop}
    (along : tree.Along holds [] path.parts) (deeper : path.parts.length < other.parts.length)
    (entry : Entry) : (tree.put other entry).Along holds [] path.parts := by
  -- Paths on the way are not as deep as the entry.
  refine along.congr fun above _ upper => lookup_put_of_ne tree entry ?_
  intro same
  rw [same, List.length_nil] at upper
  omega

/-- A directory that is there can be passed. -/
private theorem Open.passable (down : tree.Open path) : tree.Passable path := by
  -- Each directory on the way passes for itself.
  have each {reached parts : List String} (along : tree.Along (· = some .directory) reached parts) :
      tree.Along Passes reached parts := by
    induction parts generalizing reached with
    | nil => exact .inl along
    | cons part rest ih => exact ⟨.inl along.1, ih along.2⟩
  exact each down

/-- A path stays clear as long as its directory is there and its place is left alone. -/
theorem Clear.transfer {changed : FileTree} (clear : tree.Clear path)
    (down : changed.Open path.parent) (same : changed.lookup path = tree.lookup path) :
    changed.Clear path where
  plain := clear.plain
  short := clear.short
  names := clear.names
  way := down.passable
  place := by
    rw [same]
    exact clear.place

end FileTree

end DoubleLang
