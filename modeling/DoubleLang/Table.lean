/-! Tables from names to values that keep the order in which the names came in. -/

namespace DoubleLang

/-- A table from names to values, listed in the order of entry. -/
structure Table (α : Type) where
  entries : List (String × α)
  deriving DecidableEq, Repr

namespace Table

variable {α : Type}

/-- The table without names. -/
def empty : Table α := ⟨[]⟩

/-- The names of a table, in order. -/
def names (table : Table α) : List String :=
  table.entries.map Prod.fst

/-- The value of a name. -/
def get? (table : Table α) (name : String) : Option α :=
  table.entries.lookup name

/-- Whether a table has a name. -/
def contains (table : Table α) (name : String) : Bool :=
  table.names.contains name

/-- Gives a name a value in a list: at its old place, or at the end. -/
def setIn (name : String) (value : α) : List (String × α) → List (String × α)
  | [] => [(name, value)]
  | (known, old) :: rest =>
    if known = name then (known, value) :: rest else (known, old) :: setIn name value rest

/-- Gives a name a value: at its old place, or at the end. -/
def set (table : Table α) (name : String) (value : α) : Table α :=
  ⟨setIn name value table.entries⟩

/-- A table has exactly the names that it lists. -/
theorem contains_iff {table : Table α} {name : String} :
    table.contains name = true ↔ name ∈ table.names := by
  simp [contains]

/-- A name has a value exactly when the table has the name. -/
theorem isSome_get? (table : Table α) (name : String) :
    (table.get? name).isSome = table.contains name := by
  -- Look-up and membership go through the same entries.
  obtain ⟨entries⟩ := table
  simp only [get?, contains, names]
  induction entries with
  | nil => rfl
  | cons entry rest ih =>
    obtain ⟨known, value⟩ := entry
    -- The first entry decides, or else the rest does.
    by_cases same : name = known
    · simp [same]
    · have differ : (name == known) = false := beq_false_of_ne same
      simp only [List.lookup_cons, List.map_cons, List.contains_cons, differ, ih, Bool.false_or]

/-- A name that is set has the value it was given. -/
theorem get?_set_self (table : Table α) (name : String) (value : α) :
    (table.set name value).get? name = some value := by
  -- The name is set at its first entry, which is the one that look-up finds.
  obtain ⟨entries⟩ := table
  simp only [get?, set]
  induction entries with
  | nil => simp [setIn]
  | cons entry rest ih =>
    obtain ⟨known, old⟩ := entry
    by_cases same : known = name
    · simp [setIn, same]
    · have differ : (name == known) = false := beq_false_of_ne (Ne.symm same)
      simp only [setIn, if_neg same, List.lookup_cons, differ, ih]

/-- Setting a name leaves every other name as it was. -/
theorem get?_set_of_ne (table : Table α) {name other : String} (value : α)
    (different : other ≠ name) : (table.set name value).get? other = table.get? other := by
  -- No entry of another name changes.
  obtain ⟨entries⟩ := table
  simp only [get?, set]
  induction entries with
  | nil => simp [setIn, List.lookup_cons, beq_false_of_ne different]
  | cons entry rest ih =>
    obtain ⟨known, old⟩ := entry
    by_cases same : known = name
    · subst same
      simp [setIn, List.lookup_cons, beq_false_of_ne different]
    · simp only [setIn, if_neg same, List.lookup_cons, ih]

/-- A new name comes in at the end. -/
theorem entries_set_of_not_mem (table : Table α) {name : String} (value : α)
    (fresh : name ∉ table.names) :
    (table.set name value).entries = table.entries ++ [(name, value)] := by
  -- Every entry is passed, for none has the name.
  obtain ⟨entries⟩ := table
  simp only [names, set] at fresh ⊢
  induction entries with
  | nil => rfl
  | cons entry rest ih =>
    obtain ⟨known, old⟩ := entry
    simp only [List.map_cons, List.mem_cons, not_or] at fresh
    simp [setIn, Ne.symm fresh.1, ih fresh.2]

/-- A known name stays where it is. -/
theorem names_set_of_mem (table : Table α) {name : String} (value : α)
    (known : name ∈ table.names) : (table.set name value).names = table.names := by
  obtain ⟨entries⟩ := table
  simp only [names, set] at known ⊢
  induction entries with
  | nil => simp at known
  | cons entry rest ih =>
    obtain ⟨first, old⟩ := entry
    by_cases same : first = name
    · simp [setIn, same]
    · -- The name is further on, for the first entry has another.
      simp only [List.map_cons, List.mem_cons, Ne.symm same, false_or] at known
      simp [setIn, same, ih known]

end Table

end DoubleLang
