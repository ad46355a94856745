import DoubleLang.Proofs.Object.Emission
import DoubleLang.Proofs.Program.Parsed

/-!
The labels that a compiled program defines.

Constants, functions and pool entries are kept apart by the rules, with one exception: a function
may have the name of a pool entry. Only that makes a label twice.
-/

namespace DoubleLang

/-- The labels that an object defines: those of its functions, then those of its data. -/
def Object.labels (object : Object) : List String :=
  object.routines.map (·.name) ++ object.data.map (·.name)

/-- No function has the name of a pool entry. -/
def Program.PoolsApart (program : Program Span) : Prop :=
  ∀ function ∈ program.functions, ∀ other ∈ program.functions,
    ∀ number < other.literals.length, function.name ≠ PoolName.entry other.name number

instance (program : Program Span) : Decidable program.PoolsApart :=
  inferInstanceAs (Decidable (∀ function ∈ program.functions, ∀ other ∈ program.functions,
    ∀ number < other.literals.length, function.name ≠ PoolName.entry other.name number))

/-- The labels of a program in order: its functions, its constants and its pools. -/
private theorem Object.perm_labels {env : Environment} {program : Program Span} {object : Object}
    (checked : program.Checked env)
    (routines : object.routines = program.functions.map (Emission.compiled env))
    (data : object.data.Perm
      (Emission.constants env ++ program.functions.flatMap Emission.pool)) :
    object.labels.Perm (program.functions.map (·.name) ++ (program.constants.map (·.name) ++
      program.functions.flatMap fun function => (Emission.pool function).map (·.name))) := by
  -- A routine has the name of its function, and sorting only permutes the data.
  have named : object.routines.map (·.name) = program.functions.map (·.name) := by
    rw [routines, List.map_map]
    rfl
  have listed := data.map (·.name)
  rw [List.map_append, Emission.names_constants checked, List.map_flatMap] at listed
  rw [Object.labels, named]
  exact listed.append_left _

/-- The labels of a program in order are distinct exactly if its functions keep off the pools. -/
private theorem Object.nodup_labels_iff {env : Environment} {program : Program Span}
    {object : Object}
    (checked : program.Checked env) (identified : program.Identified)
    (routines : object.routines = program.functions.map (Emission.compiled env))
    (data : object.data.Perm
      (Emission.constants env ++ program.functions.flatMap Emission.pool)) :
    object.labels.Nodup ↔ program.PoolsApart := by
  -- Labels are the names of functions and those of data, and the latter are distinct.
  have dataDistinct := Emission.nodup_names_data checked identified
  rw [List.map_append, Emission.names_constants checked, List.map_flatMap] at dataDistinct
  rw [(Object.perm_labels checked routines data).nodup_iff, List.nodup_append]
  constructor
  · rintro ⟨-, -, apart⟩ function member other there number small same
    -- The name of the function and that of the entry are both labels.
    have pooled := Emission.mem_names_pool.mpr ⟨number, small, same⟩
    exact apart function.name (List.mem_map_of_mem member) function.name
      (List.mem_append_right _ (List.mem_flatMap.mpr ⟨other, there, pooled⟩)) rfl
  · intro apart
    refine ⟨checked.functions_distinct, dataDistinct, ?_⟩
    rintro label named other listed rfl
    obtain ⟨function, member, rfl⟩ := List.mem_map.mp named
    rcases List.mem_append.mp listed with constant | pooled
    · exact checked.functions_own function member constant
    · obtain ⟨other, there, found⟩ := List.mem_flatMap.mp pooled
      obtain ⟨number, small, same⟩ := Emission.mem_names_pool.mp found
      exact apart function member other there number small same

/-- A program that was read from a text and keeps the rules is compiled, and its labels are distinct
exactly if none of its functions has the name of a pool entry. -/
theorem Object.labels_distinct_iff_pools_apart {file text : String} {program : Program Span}
    {env : Environment} (parsed : Program.parse file text = .ok program)
    (accepted : program.check = .ok env) :
    ∃ object, Object.ofProgram env program = .ok object ∧
      (object.labels.Nodup ↔ program.PoolsApart) := by
  -- Names of functions that were read from a text are identifiers.
  have checked := Program.checked_of_check accepted
  obtain ⟨object, made, routines, data⟩ := Object.ofProgram_eq_ok checked
  exact ⟨object, made,
    Object.nodup_labels_iff checked (Program.identified_of_parse parsed) routines data⟩

/-- A constant and two functions with literals share no label. -/
theorem Object.labels_distinct_of_scaling : ∃ program env object,
    Program.parse "scale.dbl"
      "k = 2.5; fun scale(x) \x7b return x * k + 1; \x7d fun main() \x7b return scale(3); \x7d" =
        .ok program ∧
      program.check = .ok env ∧ Object.ofProgram env program = .ok object ∧
      object.labels.Nodup := by
  -- One run tells whether the functions keep off the pools.
  obtain ⟨program, env, parsed, accepted, apart⟩ :=
    Program.exists_of_verdict? "scale.dbl"
      "k = 2.5; fun scale(x) \x7b return x * k + 1; \x7d fun main() \x7b return scale(3); \x7d"
      (fun program => decide program.PoolsApart) true (by decide +kernel)
  obtain ⟨object, made, labels⟩ := Object.labels_distinct_iff_pools_apart parsed accepted
  exact ⟨program, env, object, parsed, accepted, made, labels.mpr (of_decide_eq_true apart)⟩

/-- A function may have the name of another's pool entry, which is then a label twice. -/
theorem Object.label_of_pool_entry_repeated : ∃ program env object,
    Program.parse "test.dbl"
      "fun f() \x7b return 1; \x7d fun _c_const_f_0() \x7b return 2; \x7d" = .ok program ∧
      program.check = .ok env ∧ Object.ofProgram env program = .ok object ∧
      ¬ object.labels.Nodup := by
  -- One run tells that the functions do not keep off the pools.
  obtain ⟨program, env, parsed, accepted, apart⟩ :=
    Program.exists_of_verdict? "test.dbl"
      "fun f() \x7b return 1; \x7d fun _c_const_f_0() \x7b return 2; \x7d"
      (fun program => decide program.PoolsApart) false (by decide +kernel)
  have checked := Program.checked_of_check accepted
  obtain ⟨object, made, routines, data⟩ := Object.ofProgram_eq_ok checked
  have labels := Object.nodup_labels_iff checked (Program.identified_of_parse parsed) routines data
  exact ⟨program, env, object, parsed, accepted, made, fun distinct =>
    of_decide_eq_false apart (labels.mp distinct)⟩

end DoubleLang
