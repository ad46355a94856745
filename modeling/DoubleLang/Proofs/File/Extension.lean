import DoubleLang.File.Path
import Mathlib.Data.List.Infix
import Mathlib.Data.List.TakeWhile

/-!
The extension of a written path.

The last part of a written path is what stands between the last slash and the slashes at the end.
Its extension goes from the last point on, if something stands in front of that point.
-/

namespace DoubleLang.Path

/-- Slashes alone are split into empty parts. -/
private theorem splitOn_slashes {slashes : List Char} (only : ∀ c ∈ slashes, c = '/') :
    ∀ part ∈ slashes.splitOn '/', part = [] := by
  -- There is one part more than slashes.
  induction slashes with
  | nil => simp
  | cons c rest ih =>
    have same : c = '/' := only c (by simp)
    have later := ih fun d member => only d (by simp [member])
    subst same
    -- A slash in front adds one empty part.
    have split : ('/' :: rest).splitOn '/' = [] :: rest.splitOn '/' :=
      List.splitOn_append_cons_self_of_not_mem (show '/' ∉ ([] : List Char) by simp) rest
    rw [split]
    simpa using later

/-- Slashes alone have no part that is not empty. -/
theorem writtenName_slashes {text : String} (only : ∀ c ∈ text.toList, c = '/') :
    writtenName text = "" := by
  -- Empty parts do not count.
  have silent : (Path.split text).filter (· ≠ "") = [] := by
    rw [List.filter_eq_nil_iff]
    intro part member
    obtain ⟨chars, inside, rfl⟩ := List.mem_map.mp member
    simp [splitOn_slashes only chars inside]
  rw [writtenName, silent]
  rfl

/-- The last part that is not empty stands behind the last slash, but for slashes at the end. -/
theorem writtenName_eq {folder name slashes : List Char}
    (closed : folder = [] ∨ folder.getLast? = some '/') (filled : name ≠ []) (whole : '/' ∉ name)
    (only : ∀ c ∈ slashes, c = '/') :
    writtenName (String.ofList (folder ++ (name ++ slashes))) = String.ofList name := by
  -- Behind the name all parts are empty.
  have tail : ∃ empties : List (List Char), (name ++ slashes).splitOn '/' = name :: empties ∧
      ∀ part ∈ empties, part = [] := by
    cases slashes with
    | nil => exact ⟨[], by simpa using List.splitOn_eq_singleton whole, by simp⟩
    | cons c rest =>
      obtain rfl : c = '/' := only c (by simp)
      exact ⟨rest.splitOn '/', List.splitOn_append_cons_self_of_not_mem whole rest,
        splitOn_slashes fun d member => only d (by simp [member])⟩
  obtain ⟨empties, split, empty⟩ := tail
  -- In front of the name the parts are those of the folder without its last slash.
  have parts : ∃ before : List (List Char),
      (folder ++ (name ++ slashes)).splitOn '/' = before ++ name :: empties := by
    rcases closed with rfl | last
    · exact ⟨[], by simpa using split⟩
    · obtain ⟨front, rfl⟩ := List.getLast?_eq_some_iff.mp last
      refine ⟨front.splitOn '/', ?_⟩
      rw [List.append_assoc, List.singleton_append, List.splitOn_append_cons_self, split]
  obtain ⟨before, listed⟩ := parts
  have silent : (empties.map String.ofList).filter (· ≠ "") = [] := by
    rw [List.filter_eq_nil_iff]
    intro part member
    obtain ⟨chars, inside, rfl⟩ := List.mem_map.mp member
    simp [empty chars inside]
  have spoken : String.ofList name ≠ "" := by simpa using filled
  rw [writtenName, Path.split, String.toList_ofList, listed]
  simp only [List.map_append, List.map_cons, List.filter_append, List.filter_cons, silent]
  simp [spoken]

/-- A text is slashes alone, or it has a last part. -/
theorem slashes_or_lastPart (text : List Char) :
    (∀ c ∈ text, c = '/') ∨ ∃ folder name slashes, text = folder ++ (name ++ slashes) ∧
      (folder = [] ∨ folder.getLast? = some '/') ∧ name ≠ [] ∧ '/' ∉ name ∧
      ∀ c ∈ slashes, c = '/' := by
  -- One more character in front joins the last part, the folder or the slashes.
  induction text with
  | nil => simp
  | cons c rest ih =>
    by_cases slash : c = '/'
    · subst slash
      rcases ih with only | ⟨folder, name, slashes, rfl, closed, filled, whole, only⟩
      · -- A slash in front of slashes makes no part, and in front of a part it closes the folder.
        exact .inl (by simpa using only)
      · refine .inr ⟨'/' :: folder, name, slashes, rfl, .inr ?_, filled, whole, only⟩
        rcases closed with rfl | last
        · rfl
        · simp [List.getLast?_cons, last]
    · right
      rcases ih with only | ⟨folder, name, slashes, rfl, closed, filled, whole, only⟩
      · exact ⟨[], [c], rest, rfl, .inl rfl, by simp, by simpa using Ne.symm slash, only⟩
      · rcases closed with rfl | last
        · exact ⟨[], c :: name, slashes, rfl, .inl rfl, by simp, by simp [Ne.symm slash, whole],
            only⟩
        · exact ⟨c :: folder, name, slashes, rfl, .inr (by simp [List.getLast?_cons, last]), filled,
            whole, only⟩

/-- The extension of a name goes from its last point on, behind a stem. -/
theorem extension_eq {stem after : List Char} (filled : stem ≠ []) (last : '.' ∉ after)
    (proper : after ≠ []) :
    extension (String.ofList (stem ++ '.' :: after)) = String.ofList ('.' :: after) := by
  -- Seen from the end, the extension is what comes before the first point.
  have backward : (stem ++ '.' :: after).reverse = after.reverse ++ '.' :: stem.reverse := by simp
  have inside : ∀ c ∈ after.reverse, decide (c ≠ '.') = true := by
    intro c member
    have listed : c ∈ after := by simpa using member
    simp only [decide_eq_true_eq]
    intro same
    exact last (same ▸ listed)
  have dropped : (stem ++ '.' :: after).reverse.dropWhile (· ≠ '.') = '.' :: stem.reverse := by
    rw [backward, List.dropWhile_append_of_pos inside]
    simp
  have taken : (stem ++ '.' :: after).reverse.takeWhile (· ≠ '.') = after.reverse := by
    rw [backward, List.takeWhile_append_of_pos inside]
    simp
  -- Two points alone have no extension, but there is a stem here and a character behind its point.
  have named : String.ofList (stem ++ '.' :: after) ≠ ".." := by
    intro same
    have lengths := congrArg (fun text : String => text.toList.length) same
    have stemmed := List.length_pos_iff.mpr filled
    have extended := List.length_pos_iff.mpr proper
    simp only [String.toList_ofList, List.length_append, List.length_cons] at lengths
    change _ = 2 at lengths
    omega
  have behind : stem.reverse ≠ [] := by simpa using filled
  simp only [extension, String.toList_ofList, dropped, taken]
  cases before : stem.reverse with
  | nil => exact absurd before behind
  | cons c rest => simp only [if_neg named, List.reverse_reverse]

/-- A name with an extension has a stem in front of its last point. -/
theorem exists_stem {name : String} (extended : extension name ≠ "") :
    ∃ stem after, name.toList = stem ++ '.' :: after ∧ stem ≠ [] ∧ '.' ∉ after ∧
      extension name = String.ofList ('.' :: after) := by
  -- Seen from the end, the stem is what the first point leaves behind it.
  have parts := List.takeWhile_append_dropWhile (p := fun c => decide (c ≠ '.'))
    (l := name.toList.reverse)
  have pointless := List.head?_dropWhile_not (fun c => decide (c ≠ '.')) name.toList.reverse
  simp only [extension] at extended ⊢
  cases found : name.toList.reverse.dropWhile (· ≠ '.') with
  | nil =>
    simp only [found] at extended
    exact absurd rfl extended
  | cons point before =>
    -- A point with nothing before it starts the name, and that is no extension.
    cases before with
    | nil =>
      simp only [found] at extended
      exact absurd rfl extended
    | cons c rest =>
      simp only [found] at extended ⊢
      split_ifs at extended with dots
      · exact absurd rfl extended
      · rw [found] at pointless
        obtain rfl : point = '.' := by simpa using pointless
        refine ⟨(c :: rest).reverse, (name.toList.reverse.takeWhile (· ≠ '.')).reverse, ?_,
          by simp, ?_, if_neg dots⟩
        · have forward := congrArg List.reverse parts
          rw [found, List.reverse_reverse] at forward
          exact forward.symm.trans (by simp)
        · intro member
          have other := List.mem_takeWhile_imp (List.mem_reverse.mp member)
          simp at other

end DoubleLang.Path
