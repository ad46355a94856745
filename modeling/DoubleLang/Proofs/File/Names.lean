import DoubleLang.Proofs.File.Extension
import DoubleLang.Proofs.File.Tree

/-!
Paths made of names.

A part of a path is a name: it is not empty, holds no slash and is no run of one or two dots.
Written paths are resolved to such parts alone, so a path can be told from the text it has.
-/

namespace DoubleLang.Path

/-- A text that can stand as a part of a path. -/
structure IsName (part : String) : Prop where
  filled : part ≠ ""
  /-- A single dot is the directory itself. -/
  down : part ≠ "."
  /-- Two dots are the directory above. -/
  below : part ≠ ".."
  whole : '/' ∉ part.toList

/-- All parts of a path are names. -/
def Proper (path : Path) : Prop :=
  ∀ part ∈ path.parts, IsName part

/-- The path of another name in the same directory. -/
def sibling (path : Path) (name : String) : Path :=
  ⟨path.parent.parts ++ [name]⟩

/-- A sibling has the name it is given. -/
@[simp] theorem name_sibling (path : Path) (name : String) : (path.sibling name).name = name := by
  simp [sibling, Path.name]

/-- More text at the end of a path makes another name in its directory. -/
theorem extend_eq_sibling (path : Path) (more : String) :
    path.extend more = path.sibling (path.name ++ more) := rfl

/-- The root is proper, for it has no parts. -/
private theorem proper_root : root.Proper := by
  intro part member
  cases member

/-- The directory of a proper path is proper. -/
theorem Proper.parent {path : Path} (proper : path.Proper) : path.parent.Proper :=
  fun part member => proper part (List.mem_of_mem_dropLast member)

/-- A path below the root stands beside itself. -/
theorem sibling_name {path : Path} (below : path ≠ .root) : path.sibling path.name = path := by
  rw [sibling, ← parts_eq below]

/-- A sibling of a proper path is proper if it is given a name. -/
theorem Proper.sibling {path : Path} {name : String} (proper : path.Proper) (named : IsName name) :
    (path.sibling name).Proper := by
  -- Its parts are those of the directory, and its own name.
  intro part member
  rcases List.mem_append.mp member with above | last
  · exact proper.parent part above
  · rwa [List.mem_singleton.mp last]

/-- The root is the one proper path without a name. -/
theorem Proper.name {path : Path} (proper : path.Proper) (below : path ≠ .root) :
    IsName path.name := by
  -- A path below the root has its name as last part.
  have listed : path.name ∈ path.parts := by
    rw [parts_eq below]
    exact List.mem_append_right _ List.mem_cons_self
  exact proper _ listed

/-- No path is named a dot or two. -/
theorem Proper.name_not_dots {path : Path} (proper : path.Proper) : path.name ∉ [".", ".."] := by
  -- The root has no name at all.
  by_cases top : path = .root
  · subst top
    decide
  · have named := proper.name top
    simp [named.down, named.below]

/-- No slash stands in the name of a proper path. -/
theorem Proper.name_whole {path : Path} (proper : path.Proper) : '/' ∉ path.name.toList := by
  -- The root has no name at all.
  by_cases top : path = .root
  · subst top
    decide
  · exact (proper.name top).whole

/-- A text is split at its slashes, so no part holds one. -/
private theorem slash_not_mem_split {text part : String} (listed : part ∈ split text) :
    '/' ∉ part.toList := by
  -- A part with a slash in it would be split again, behind what stands before it.
  have parts (chars : List Char) : ∀ piece ∈ chars.splitOn '/', '/' ∉ piece := by
    induction chars with
    | nil => simp
    | cons c rest ih =>
      rw [List.splitOn_cons_eq_if_modifyHead]
      split
      · simpa using ih
      · rename_i other
        -- Any other character joins the part that the rest starts with.
        cases later : rest.splitOn '/' with
        | nil => simp
        | cons first others =>
          rw [later, List.forall_mem_cons] at ih
          rw [List.modifyHead_cons, List.forall_mem_cons]
          have differ : c ≠ '/' := by simpa using other
          exact ⟨by simpa [Ne.symm differ] using ih.1, ih.2⟩
  obtain ⟨piece, member, rfl⟩ := List.mem_map.mp listed
  rw [String.toList_ofList]
  exact parts _ piece member

/-- Following a part keeps to names. -/
private theorem isName_of_mem_follow {parts : List String} {part : String}
    (names : ∀ name ∈ parts, IsName name) (whole : '/' ∉ part.toList) :
    ∀ name ∈ follow parts part, IsName name := by
  -- A part leads nowhere, up or down, and only then it is added.
  unfold follow
  split_ifs with stays up
  · exact names
  · exact fun name member => names name (List.mem_of_mem_dropLast member)
  · rw [not_or] at stays
    intro name member
    rcases List.mem_append.mp member with before | last
    · exact names name before
    · rw [List.mem_singleton.mp last]
      exact ⟨stays.1, stays.2, up, whole⟩

/-- What is resolved from a proper directory is proper, however it is written. -/
theorem Proper.resolve {directory : Path} (proper : directory.Proper) (text : String) :
    (directory.resolve text).Proper := by
  -- Each part that is followed leaves names, from the root or from the directory.
  have walk (written : List String) (whole : ∀ part ∈ written, '/' ∉ part.toList)
      (start : List String) (names : ∀ name ∈ start, IsName name) :
      ∀ name ∈ written.foldl follow start, IsName name := by
    induction written generalizing start with
    | nil => exact names
    | cons part rest ih =>
      rw [List.forall_mem_cons] at whole
      exact ih whole.2 _ (isName_of_mem_follow names whole.1)
  refine walk _ (fun part => slash_not_mem_split) _ ?_
  split
  · exact proper_root
  · exact proper

/-- Only the parts that are not empty are followed. -/
private theorem foldl_follow_filter (written start : List String) :
    (written.filter (· ≠ "")).foldl follow start = written.foldl follow start := by
  -- An empty part leads nowhere.
  induction written generalizing start with
  | nil => rfl
  | cons part rest ih =>
    by_cases empty : part = ""
    · rw [List.filter_cons_of_neg (by simp [empty]), ih, List.foldl_cons]
      simp [empty, follow]
    · rw [List.filter_cons_of_pos (by simp [empty]), List.foldl_cons, List.foldl_cons, ih]

/-- The last part of a written path is a name if it has an extension. -/
theorem isName_writtenName {text : String} (extended : extension (writtenName text) ≠ "") :
    IsName (writtenName text) := by
  -- Nothing, a dot and two dots have no extension.
  have filled : writtenName text ≠ "" := by
    intro empty
    exact extended (by rw [empty]; decide)
  refine ⟨filled, ?_, ?_, ?_⟩
  · intro dot
    exact extended (by rw [dot]; decide)
  · intro dots
    exact extended (by rw [dots]; decide)
  · have listed : ((split text).filter (· ≠ "")).getLast? = some (writtenName text) := by
      rw [writtenName, List.getLastD_eq_getLast?] at filled ⊢
      cases last : ((split text).filter (· ≠ "")).getLast? with
      | none => exact absurd (by rw [last]; rfl) filled
      | some part => rfl
    exact slash_not_mem_split (List.mem_of_mem_filter (List.mem_of_getLast? listed))

/-- A written path whose last part is a name is resolved to a path of that name. -/
theorem name_resolve {text : String} (named : IsName (writtenName text)) (directory : Path) :
    directory.resolve text ≠ .root ∧ (directory.resolve text).name = writtenName text := by
  -- Where following starts has no part in it.
  obtain ⟨start, resolved⟩ : ∃ start, directory.resolve text = ⟨(split text).foldl follow start⟩ :=
    ⟨_, rfl⟩
  -- The last part that is not empty is followed last, and it goes down.
  have listed : (split text).filter (· ≠ "") ≠ [] := by
    intro none
    exact named.filled (by rw [writtenName, none]; rfl)
  have last : ((split text).filter (· ≠ "")).getLast listed = writtenName text := by
    rw [writtenName, List.getLastD_eq_getLast?, List.getLast?_eq_some_getLast listed]
    rfl
  have parts : ∃ above, directory.resolve text = ⟨above ++ [writtenName text]⟩ := by
    rw [resolved, ← foldl_follow_filter, ← List.dropLast_concat_getLast listed, last,
      List.foldl_append]
    simp only [List.foldl_cons, List.foldl_nil]
    exact ⟨_, by rw [follow, if_neg (by simp [named.filled, named.down]), if_neg named.below]⟩
  obtain ⟨above, whole⟩ := parts
  rw [whole]
  simp [root, name]

/-- A written path without a slash is one part to follow. -/
theorem resolve_of_whole {text : String} (whole : '/' ∉ text.toList) (directory : Path) :
    directory.resolve text = ⟨follow directory.parts text⟩ := by
  -- The path starts at the directory and has no more than one part.
  have relative : text.toList.head? ≠ some '/' := by
    intro first
    exact whole (List.mem_of_head? first)
  have single : split text = [text] := by
    rw [split, List.splitOn_eq_singleton whole]
    simp
  simp [resolve, relative, single]

/-- The parts of a proper path can be read off its text. -/
private theorem filter_split_text {path : Path} (proper : path.Proper) :
    (split path.text).filter (· ≠ "") = path.parts := by
  obtain ⟨parts⟩ := path
  -- The text starts with a slash, and the other slashes stand between the parts.
  have slashed : (text ⟨parts⟩).toList.splitOn '/' =
      [] :: (['/'].intercalate (parts.map String.toList)).splitOn '/' := by
    rw [text, String.toList_append, String.toList_intercalate]
    exact List.splitOn_append_cons_self_of_not_mem (show '/' ∉ ([] : List Char) by simp) _
  by_cases top : parts = []
  · subst top
    simp [split, slashed]
  · -- Parts are not empty and hold no slash, so they are what is left between the slashes.
    have whole : ∀ piece ∈ parts.map String.toList, '/' ∉ piece := by
      intro piece member
      obtain ⟨part, listed, rfl⟩ := List.mem_map.mp member
      exact (proper part listed).whole
    have filled : ∀ part ∈ parts, decide (part ≠ "") = true := by
      intro part listed
      simpa using (proper part listed).filled
    rw [split, slashed, List.splitOn_intercalate '/' whole (by simpa using top)]
    simpa [Function.comp_def] using filled

/-- Proper paths that are written alike are the same. -/
theorem text_injective {first second : Path} (proper : first.Proper) (otherProper : second.Proper)
    (same : first.text = second.text) : first = second := by
  -- The text gives the parts back.
  have parts := filter_split_text proper
  rw [same, filter_split_text otherProper] at parts
  cases first
  cases second
  exact congrArg Path.mk parts.symm

/-- Any text without a slash is a name once it ends in the extension of assembly. -/
theorem isName_assembly {front : String} (whole : '/' ∉ front.toList) : IsName (front ++ ".s") := by
  have last : (front ++ ".s").toList.getLast? = some 's' := by simp
  refine ⟨?_, ?_, ?_, by simpa using whole⟩ <;> intro same <;> simp [same] at last

/-- A name is its stem and its extension. -/
theorem stem_append_extension (name : String) : stem name ++ extension name = name := by
  -- The stem is what is left of a name without as many characters as the extension has.
  rw [← String.toList_inj, String.toList_append, stem, String.toList_ofList]
  by_cases bare : extension name = ""
  · simp [bare]
  · obtain ⟨front, after, whole, -, -, extended⟩ := exists_stem bare
    rw [extended, String.toList_ofList, whole]
    simp

/-- No name is all extension. -/
theorem stem_ne_empty {name : String} (filled : name ≠ "") : stem name ≠ "" := by
  -- A name without stem would be its own extension.
  intro empty
  have whole := stem_append_extension name
  rw [empty, String.empty_append] at whole
  -- What stands in front of an extension is not empty, and without one the name is all stem.
  have extended : extension name ≠ "" := by
    rw [whole]
    exact filled
  obtain ⟨front, after, split, fronted, -, named⟩ := exists_stem extended
  rw [← whole, named, String.toList_ofList, List.self_eq_append_left] at split
  exact fronted split

/-- The stem of a name holds no slash either. -/
theorem slash_not_mem_stem {name : String} (whole : '/' ∉ name.toList) :
    '/' ∉ (stem name).toList := by
  rw [← stem_append_extension name, String.toList_append, List.mem_append, not_or] at whole
  exact whole.1

end DoubleLang.Path
