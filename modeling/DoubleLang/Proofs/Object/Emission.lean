import DoubleLang.Object.Emission
import DoubleLang.Proofs.Frame.Slots
import DoubleLang.Proofs.PoolName

/-! Programs in order have code: the routine of every function, and data under distinct names. -/

namespace DoubleLang

/-- The live statements stand at the front of the body. -/
theorem Function.live_append {α : Type} (function : Function α) :
    ∃ dead, function.body = function.live ++ dead := by
  -- A return cuts off what follows it, and any other statement is passed.
  unfold Function.live
  generalize function.body = body
  induction body with
  | nil => exact ⟨[], rfl⟩
  | cons statement rest ih =>
    obtain ⟨dead, split⟩ := ih
    by_cases leaves : statement.isReturn = true
    · exact ⟨rest, by simp [Statement.live, leaves]⟩
    · exact ⟨dead, by simp [Statement.live, leaves, ← split]⟩

/-- No name that a frame takes as read is a constant. -/
theorem Function.Checked.reads_own {env : Environment} {function : Function Span}
    (checked : function.Checked env.toGlobals (env.scope function.name)) {name : String}
    (read : name ∈ (Frame.ofFunction env function).reads) : name ∉ env.constants.names := by
  -- What is read is in the scope, and the scope shares no name with the constants.
  rw [Frame.reads_ofFunction] at read
  rcases (checked.in_scope name).mp (Frame.readsOf_subset _ _ read) with listed | assigned
  · obtain ⟨param, member, rfl⟩ := List.mem_map.mp listed
    exact checked.params_own param member
  · exact checked.targets_own name assigned

/-- The names of the scope in a live statement with code are read. -/
theorem Frame.mem_reads_of_hasCode {α : Type} {env : Environment} {function : Function α}
    {tree : Statement α} (live : tree ∈ function.live)
    (coded : Emission.hasCode (ofFunction env function) tree = true) {name : String}
    (asked : name ∈ tree.value.names) (known : name ∈ (env.scope function.name).names) :
    name ∈ (ofFunction env function).reads := by
  -- A statement with code is a return, or it assigns to a name that is read.
  rw [reads_ofFunction]
  refine mem_readsOf live ?_ asked known
  rintro note target value rfl
  simpa [Emission.hasCode, reads_ofFunction] using coded

/-- A name in a live statement with code is a parameter or an earlier target, and is read; or it is
a constant. -/
theorem Function.Checked.read_or_constant {env : Environment} {function : Function Span}
    (checked : function.Checked env.toGlobals (env.scope function.name))
    {before after : List (Statement Span)} {tree : Statement Span}
    (split : function.live = before ++ tree :: after)
    (coded : Emission.hasCode (Frame.ofFunction env function) tree = true) {name : String}
    (asked : name ∈ tree.value.names) :
    (name ∈ (Frame.ofFunction env function).reads ∧
        (name ∈ function.params.map (·.name) ∨ name ∈ Statement.targets before)) ∨
      (name ∉ (Frame.ofFunction env function).reads ∧ name ∈ env.constants.names) := by
  -- The check knows where every name of a statement comes from.
  obtain ⟨dead, whole⟩ := function.live_append
  have live : tree ∈ function.live := by simp [split]
  rcases checked.known before tree (after ++ dead) (by simp [whole, split]) name asked with
    listed | assigned | constant
  · exact .inl ⟨Frame.mem_reads_of_hasCode live coded asked ((checked.in_scope name).mpr
      (.inl listed)), .inl listed⟩
  · -- An earlier target is a target of the body.
    have inside : name ∈ Statement.targets function.body := by
      rw [whole, split, List.append_assoc, Statement.targets_append]
      exact List.mem_append_left _ assigned
    exact .inl ⟨Frame.mem_reads_of_hasCode live coded asked ((checked.in_scope name).mpr
      (.inr inside)), .inr assigned⟩
  · exact .inr ⟨fun read => checked.reads_own read constant, constant⟩

/-- A name in a live statement with code has a slot if it is read. -/
theorem Function.Checked.exists_slot {env : Environment} {function : Function Span}
    (checked : function.Checked env.toGlobals (env.scope function.name))
    {tree : Statement Span} (live : tree ∈ function.live)
    (coded : Emission.hasCode (Frame.ofFunction env function) tree = true) {name : String}
    (asked : name ∈ tree.value.names) (read : name ∈ (Frame.ofFunction env function).reads) :
    ∃ offset, (Frame.ofFunction env function).slots.get? name = some offset := by
  -- The frame serves all parameters and all live targets that are read.
  obtain ⟨used, serves⟩ := Frame.ofFunction_serves env checked.params_distinct
  obtain ⟨before, after, split⟩ := List.append_of_mem live
  -- Parameters and earlier targets have slots if they are read.
  rcases checked.read_or_constant split coded asked with ⟨-, listed | assigned⟩ | ⟨unread, -⟩
  · obtain ⟨param, there, rfl⟩ := List.mem_map.mp listed
    obtain ⟨index, found⟩ := List.mem_iff_getElem?.mp there
    exact ⟨_, serves.parameters found read⟩
  · refine Option.isSome_iff_exists.mp (serves.targets name ?_ read)
    rw [split, Statement.targets_append]
    exact List.mem_append_left _ assigned
  · exact absurd read unread

namespace Emission

/-- The code of a function whose names all have slots. -/
def compiled (env : Environment) (function : Function Span) : Routine :=
  let frame := Frame.ofFunction env function
  ⟨function.name, function.arity, frame.size,
    opening frame ++ (statements function.name frame 0 function.live ++ closing)⟩

/-- Every name that the code of a function in order asks of its frame is there. -/
private theorem missing?_eq_none {env : Environment} {function : Function Span}
    (checked : function.Checked env.toGlobals (env.scope function.name)) :
    missing? (Frame.ofFunction env function) function.live = none := by
  -- A slot is missing if a statement with code asks for a name without one.
  simp only [missing?, List.find?_eq_none, List.mem_flatMap, List.mem_filter]
  rintro name ⟨statement, ⟨member, coded⟩, asked⟩ absent
  simp only [Bool.and_eq_true, List.contains_iff_mem, Bool.not_eq_true', ← Table.isSome_get?]
    at absent
  obtain ⟨read, slotless⟩ := absent
  -- What is asked for has a slot if it is read.
  obtain ⟨offset, found⟩ := checked.exists_slot member coded asked read
  simp [found] at slotless

/-- A function in order has code. -/
theorem routine_eq_ok {env : Environment} {function : Function Span}
    (checked : function.Checked env.toGlobals (env.scope function.name)) :
    routine env function = .ok (compiled env function) := by
  -- No slot is missing, so there is code.
  simp only [routine, missing?_eq_none checked, compiled]

/-- The names of the constants among the data. -/
theorem names_constants {env : Environment} {program : Program Span}
    (checked : program.Checked env) :
    (constants env).map (·.name) = program.constants.map (·.name) := by
  simp [constants, checked.constants, Function.comp_def]

/-- The names in the pool of a function are made from the numbers of its literals. -/
theorem mem_names_pool {function : Function Span} {name : String} :
    name ∈ (pool function).map (·.name) ↔
      ∃ number < function.literals.length, name = PoolName.entry function.name number := by
  -- An entry is numbered by the position of its literal.
  simp only [pool, List.map_map, List.mem_map, Prod.exists, Function.comp_apply]
  constructor
  · rintro ⟨text, number, member, rfl⟩
    exact ⟨number, (List.getElem?_eq_some_iff.mp (List.mem_zipIdx_iff_getElem?.mp member)).1, rfl⟩
  · rintro ⟨number, small, rfl⟩
    exact ⟨function.literals.get ⟨number, small⟩, number,
      List.mem_zipIdx_iff_getElem?.mpr (by simp), rfl⟩

/-- The names in the pool of a function are distinct. -/
private theorem nodup_names_pool (function : Function Span) :
    ((pool function).map (·.name)).Nodup := by
  -- The names are made from the numbers in a row, and different numbers make different names.
  have numbered : (pool function).map (·.name) =
      (List.range' 0 function.literals.length).map fun number : Nat =>
        PoolName.entry function.name number := by
    rw [← List.zipIdx_map_snd 0 function.literals, List.map_map, pool, List.map_map]
    rfl
  rw [numbered]
  exact List.Nodup.map (fun _ _ same => (PoolName.entry_inj same).2) (List.nodup_range' 1)

/-- The names of all data are distinct. -/
theorem nodup_names_data {env : Environment} {program : Program Span}
    (checked : program.Checked env) (identified : program.Identified) :
    ((constants env ++ program.functions.flatMap pool).map (·.name)).Nodup := by
  -- Constants have distinct names, and so have the entries of pools.
  rw [List.map_append, names_constants checked, List.map_flatMap]
  refine checked.constants_distinct.append ?_ ?_
  · refine List.nodup_flatMap.mpr ⟨fun function _ => nodup_names_pool function, ?_⟩
    -- Functions have different names, so their pools have nothing in common.
    refine (List.pairwise_map.mp checked.functions_distinct).imp ?_
    intro function other differ name here there
    obtain ⟨number, -, rfl⟩ := mem_names_pool.mp here
    obtain ⟨index, -, same⟩ := mem_names_pool.mp there
    exact differ (PoolName.entry_inj same).1
  · -- Names of the pool are reserved, and no constant has such a name.
    intro name listed pooled
    obtain ⟨constant, member, rfl⟩ := List.mem_map.mp listed
    obtain ⟨function, there, found⟩ := List.mem_flatMap.mp pooled
    obtain ⟨number, -, same⟩ := mem_names_pool.mp found
    have reserved := PoolName.isReserved_entry (identified function there) number
    rw [← same, checked.unreserved constant member] at reserved
    cases reserved

end Emission

/-- A program in order is compiled function by function, and its data are sorted. -/
theorem Object.ofProgram_eq_ok {env : Environment} {program : Program Span}
    (checked : program.Checked env) :
    ∃ object, Object.ofProgram env program = .ok object ∧
      object.routines = program.functions.map (Emission.compiled env) ∧
      object.data.Perm (Emission.constants env ++ program.functions.flatMap Emission.pool) := by
  -- Every function has code, so the list of them has; sorting only permutes the data.
  have routines : program.functions.mapM (Emission.routine env) =
      .ok (program.functions.map (Emission.compiled env)) := by
    rw [mapM_eq_ok_iff, List.forall₂_map_right_iff, List.forall₂_same]
    exact fun function member => Emission.routine_eq_ok (checked.functions function member)
  exact ⟨_, bind_eq_ok_iff.mpr ⟨_, routines, rfl⟩, rfl, List.mergeSort_perm _ _⟩

end DoubleLang
