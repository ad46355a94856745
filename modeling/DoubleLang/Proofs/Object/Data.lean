import DoubleLang.Proofs.Object.Correctness
import DoubleLang.Proofs.Text.Order

/-!
The data of a compiled program, in the order of their names.

No two pieces of data share a name, so the order is strict and the list follows from what is in it.
-/

namespace DoubleLang

/-- Data in strictly increasing order of their names. -/
def Datum.Increasing (data : List Datum) : Prop :=
  data.Pairwise fun first second => Text.units first.name.toList < Text.units second.name.toList

/-- Data in strict order are told by what is among them. -/
theorem Datum.Increasing.eq_of_mem_iff {first second : List Datum} (one : Increasing first)
    (other : Increasing second) (same : ∀ datum, datum ∈ first ↔ datum ∈ second) :
    first = second := by
  -- No datum comes up twice, so the lists are the same up to order.
  have distinct {data : List Datum} (increasing : Increasing data) : data.Nodup := by
    refine increasing.imp ?_
    rintro datum next less rfl
    exact List.lt_irrefl _ less
  refine List.Perm.eq_of_pairwise ?_ one other
    ((List.perm_ext_iff_of_nodup (distinct one) (distinct other)).mpr same)
  intro datum next _ _ before behind
  exact absurd before (List.lt_asymm behind)

namespace Object

variable {α : Type} {env : Environment} {program : Program α} {object : Object}

/-- The data are sorted by their names. -/
private theorem data_sorted (made : Object.ofProgram env program = .ok object) :
    object.data.Pairwise fun first second => Text.precedes first.name second.name = true := by
  -- The order of names is one that sorting keeps to.
  obtain ⟨routines, -, same⟩ := bind_eq_ok_iff.mp made
  cases same
  refine List.pairwise_mergeSort ?_ ?_ _
  · intro first second third before behind
    exact Text.precedes_trans before behind
  · intro first second
    exact Text.precedes_total first.name second.name

/-- Data with distinct names are strictly ordered. -/
theorem data_increasing (made : Object.ofProgram env program = .ok object)
    (distinct : (object.data.map (·.name)).Nodup) : Datum.Increasing object.data :=
  -- A name that comes before another one and is not the same is less.
  (data_sorted made).imp₂ (fun _ _ before differ => Text.lt_of_precedes_of_ne before differ)
    (List.pairwise_map.mp distinct)

/-- A program in order with identifiers for the names of its functions has a compiled form. -/
theorem exists_compiles {program : Program Span} (identified : program.Identified)
    (accepted : program.check = .ok env) :
    ∃ object, Object.ofProgram env program = .ok object ∧ object.Compiles env program := by
  -- An accepted program keeps all the rules that its code relies on.
  have checked := Program.checked_of_check accepted
  obtain ⟨object, made, routines, data⟩ := Object.ofProgram_eq_ok checked
  -- Sorting moves data around and changes nothing else.
  exact ⟨object, made, checked, routines, fun _ => data.mem_iff,
    (data.map _).nodup_iff.mpr (Emission.nodup_names_data checked identified)⟩

end Object

end DoubleLang
