import DoubleLang.Artifact
import DoubleLang.Proofs.Object.Copies
import DoubleLang.Proofs.Object.Independence
import DoubleLang.Proofs.Program.Renaming

/-!
Own names of functions do not come up in what is made of a program.

A function with other names for its parameters and targets is a copy of the function. The names that
its code has are those of data, and these are constants, which are not changed.
-/

namespace DoubleLang

open Emission

section Copies

variable {program : Program Span} {env other : Environment} {before after : List (Function Span)}
  {function copy : Function Span} {change : String → String}

/-- A change that keeps the constants keeps the names that a function in order finds among the
data. -/
private theorem Function.Checked.dataKept
    (checked : function.Checked env.toGlobals (env.scope function.name))
    (constants : ∀ name ∈ env.constants.names, change name = name) {tree : Statement Span}
    (live : tree ∈ function.live)
    (coded : hasCode (Frame.ofFunction env function) tree = true) :
    DataKept change (Frame.ofFunction env function) tree := by
  -- What has no slot is a constant, and those are kept.
  intro name member data
  rcases checked.place_cases live coded member with ⟨offset, inside⟩ | ⟨-, constant⟩
  · rw [inside] at data
    cases data
  · exact constants name constant

/-- A program in order with a copy of one of its functions is compiled to the same code and data. -/
private theorem Object.ofProgram_of_copy (accepted : program.check = .ok env)
    (split : program.functions = before ++ function :: after) (copied : function.Copy change copy)
    (injective : Function.Injective change)
    (constants : ∀ name ∈ program.constants.map (·.name), change name = name)
    (changed : (program.withDeclarations program.constants (before ++ copy :: after)).check =
      .ok other) :
    Object.ofProgram other (program.withDeclarations program.constants (before ++ copy :: after)) =
      Object.ofProgram env program := by
  have checked := Program.checked_of_check accepted
  -- The scope of every function is made of its own names.
  have scope {twin : Function Span} (member : twin ∈ before ++ copy :: after) :
      other.scope twin.name = twin.scopeBehind twin.body := Program.scope_of_check changed member
  have same {twin : Function Span} (member : twin ∈ before ++ copy :: after)
      (listed : twin ∈ program.functions) : routine other twin = routine env twin :=
    routine_congr (by rw [scope member, Program.scope_of_check accepted listed])
  have member : function ∈ program.functions := by simp [split]
  have replaced : routine other copy = routine env function := by
    have kept : ∀ name ∈ env.constants.names, change name = name := by
      rw [checked.names_constants]
      exact constants
    rw [routine_copy injective copied ?_ fun tree live coded =>
      (checked.functions function member).dataKept kept live coded,
      routine_eq_ok (checked.functions function member)]
    · rfl
    · rw [scope (by simp), copied.scopeBehind_eq injective, Program.scope_of_check accepted member]
  -- All other functions stand in both programs, and the constants stay.
  refine Object.ofProgram_congr ?_ ?_
  · rw [← (Program.check_eq_ok_iff.mp changed).2, ← (Program.check_eq_ok_iff.mp accepted).2]
    rfl
  · rw [split]
    refine List.rel_append (List.forall₂_same.mpr fun twin listed => ?_)
      (.cons ⟨replaced, pool_copy copied⟩ (List.forall₂_same.mpr fun twin listed => ?_))
    · exact ⟨same (by simp [listed]) (by simp [split, listed]), rfl⟩
    · exact ⟨same (by simp [listed]) (by simp [split, listed]), rfl⟩

end Copies

/-- The own names of a function in order are no constants. -/
private theorem Function.Checked.ownNames_apart {globals : Globals} {scope : Scope}
    {function : Function Span} (checked : function.Checked globals scope) {name : String}
    (own : name ∈ function.ownNames) : name ∉ globals.constants.names := by
  -- Neither parameters nor targets may have the name of a constant.
  rcases List.mem_append.mp own with listed | assigned
  · obtain ⟨param, member, rfl⟩ := List.mem_map.mp listed
    exact checked.params_own param member
  · exact checked.targets_own name assigned

/-- A function in order reads its own names and constants. -/
private theorem Function.Checked.own_or_constant {globals : Globals} {scope : Scope}
    {function : Function Span} (checked : function.Checked globals scope)
    {statement : Statement Span} (member : statement ∈ function.body) {name : String}
    (asked : name ∈ statement.value.names) :
    name ∈ function.ownNames ∨ name ∈ globals.constants.names := by
  -- A name is known by a parameter, an earlier target or a constant.
  obtain ⟨before, after, split⟩ := List.append_of_mem member
  rcases checked.known before statement after split name asked with listed | assigned | constant
  · exact .inl (List.mem_append_left _ listed)
  · refine .inl (List.mem_append_right _ ?_)
    rw [split, Statement.targets_append]
    exact List.mem_append_left _ assigned
  · exact .inr constant

/-- A change of own names that keeps them apart, and apart from the constants, is for all names of a
function in order one that keeps all names apart and the constants as they are. -/
private theorem Function.Checked.exists_copy_rename {globals : Globals} {scope : Scope}
    {function : Function Span} {change : String → String} (checked : function.Checked globals scope)
    (apart : Set.InjOn change {name | name ∈ function.ownNames})
    (free : ∀ name ∈ function.ownNames, change name ∉ globals.constants.names) :
    ∃ whole : String → String, Function.Injective whole ∧
      (∀ name ∈ function.ownNames, whole name = change name) ∧
      (∀ name ∈ globals.constants.names, whole name = name) ∧
      function.Copy whole (function.rename change) := by
  -- For the constants the change is undone, and own names are no constants.
  have constant {name : String} (known : name ∈ globals.constants.names) :
      function.ownChange change name = name :=
    if_neg fun own => checked.ownNames_apart own known
  have own {name : String} (member : name ∈ function.ownNames) :
      function.ownChange change name = change name := if_pos member
  -- Own names are kept apart from each other and from the constants, which stay.
  have allApart : Set.InjOn (function.ownChange change)
      {name | name ∈ function.ownNames ++ globals.constants.names} := by
    intro first here second there same
    rcases List.mem_append.mp here with mine | known <;>
      rcases List.mem_append.mp there with yours | other
    · rw [own mine, own yours] at same
      exact apart mine yours same
    · rw [own mine, constant other] at same
      exact absurd (same ▸ other) (free first mine)
    · rw [constant known, own yours] at same
      exact absurd (same ▸ known) (free second yours)
    · rwa [constant known, constant other] at same
  obtain ⟨whole, injective, agrees⟩ := exists_injective_extending allApart
  rw [List.forall_mem_append] at agrees
  have changed : ∀ name ∈ function.ownNames, whole name = change name :=
    fun name member => (agrees.1 name member).trans (own member)
  have still : ∀ name ∈ globals.constants.names, whole name = name :=
    fun name known => (agrees.2 name known).trans (constant known)
  refine ⟨whole, injective, changed, still, Function.copy_rename changed ?_⟩
  intro statement member name asked foreign
  exact still name ((checked.own_or_constant member asked).resolve_left foreign)

/-- The own names of a function may be changed to any names that are apart from each other and from
the constants and functions of the program: the program is in order as before, it is compiled to the
same code and data, and the same texts are written. -/
theorem Object.own_names_free {program : Program Span} {env : Environment}
    {before after : List (Function Span)} {function : Function Span} {change : String → String}
    (accepted : program.check = .ok env)
    (split : program.functions = before ++ function :: after)
    (apart : Set.InjOn change {name | name ∈ function.ownNames})
    (free : ∀ name ∈ function.ownNames, change name ∉ program.constants.map (·.name) ∧
      change name ∉ program.functions.map (·.name)) :
    ∃ renamedEnv object renamedObject,
      (program.withDeclarations program.constants
        (before ++ function.rename change :: after)).check = .ok renamedEnv ∧
      Object.ofProgram env program = .ok object ∧
      Object.ofProgram renamedEnv (program.withDeclarations program.constants
        (before ++ function.rename change :: after)) = .ok renamedObject ∧
      renamedObject.routines = object.routines ∧ renamedObject.data = object.data ∧
      ∀ ending, renamedObject.assembly ending = object.assembly ending ∧
        renamedObject.map ending = object.map ending := by
  -- The change is extended to one of all names, which makes the renamed function a copy.
  have checked := Program.checked_of_check accepted
  obtain ⟨whole, injective, changed, still, copied⟩ :=
    (checked.functions function (by simp [split])).exists_copy_rename apart fun name own => by
      rw [checked.names_constants]
      exact (free name own).1
  rw [checked.names_constants] at still
  -- The own names of the renamed function are the changed ones.
  have renamedFree : ∀ name ∈ (function.rename change).ownNames,
      name ∉ program.constants.map (·.name) ∧ name ∉ program.functions.map (·.name) := by
    rw [copied.ownNames_eq]
    intro name member
    obtain ⟨original, own, rfl⟩ := List.mem_map.mp member
    rw [changed original own]
    exact free original own
  have judged := Program.check_of_copy accepted split copied injective still renamedFree
  obtain ⟨object, made, -⟩ := Object.ofProgram_eq_ok checked
  refine ⟨_, object, object, judged, made, ?_, rfl, rfl, fun ending => ⟨rfl, rfl⟩⟩
  rw [Object.ofProgram_of_copy accepted split copied injective still judged, made]

/-- A change under which three names go round. -/
def goneRound (name : String) : String :=
  if name = "x" then "y" else if name = "y" then "u" else "x"

/-- The two parameters and the local of a function go round: each is named as another was. -/
theorem Object.own_names_free_of_gone_round :
    ∃ program env scaled function renamedEnv object renamedObject,
      Program.parse "round.dbl" ("k = 2; fun scaled(a) \x7b return a * k; \x7d " ++
        "fun f(x, y) \x7b u = x - y; x = u; return scaled(x) + k; \x7d") = .ok program ∧
      program.check = .ok env ∧ program.functions = [scaled, function] ∧
      function.ownNames = ["x", "y", "u", "x"] ∧
      (function.rename goneRound).ownNames = ["y", "u", "x", "y"] ∧
      (program.withDeclarations program.constants
        ([scaled] ++ function.rename goneRound :: [])).check = .ok renamedEnv ∧
      Object.ofProgram env program = .ok object ∧
      Object.ofProgram renamedEnv (program.withDeclarations program.constants
        ([scaled] ++ function.rename goneRound :: [])) = .ok renamedObject ∧
      renamedObject.routines = object.routines ∧ renamedObject.data = object.data ∧
      ∀ ending, renamedObject.assembly ending = object.assembly ending ∧
        renamedObject.map ending = object.map ending := by
  -- One run gives the names of both functions, and what becomes of them.
  obtain ⟨program, env, parsed, accepted, given⟩ := Program.exists_of_verdict? "round.dbl"
    ("k = 2; fun scaled(a) \x7b return a * k; \x7d " ++
      "fun f(x, y) \x7b u = x - y; x = u; return scaled(x) + k; \x7d")
    (fun program : Program Span => decide (
      program.constants.map (·.name) = ["k"] ∧ program.functions.map (·.name) = ["scaled", "f"] ∧
      program.functions.map (·.ownNames) = [["a"], ["x", "y", "u", "x"]] ∧
      program.functions.map (fun function => (function.rename goneRound).ownNames) =
        [["x"], ["y", "u", "x", "y"]]))
    true (by decide +kernel)
  obtain ⟨constants, functions, own, renamed⟩ := of_decide_eq_true given
  obtain ⟨scaled, function, listed⟩ : ∃ scaled function, program.functions = [scaled, function] :=
    List.length_eq_two.mp (by simpa using congrArg List.length functions)
  simp only [listed, List.map_cons, List.map_nil, List.cons.injEq, and_true] at own renamed
  have apart : ∀ first ∈ ["x", "y", "u", "x"], ∀ second ∈ ["x", "y", "u", "x"],
      goneRound first = goneRound second → first = second := by decide
  have split : program.functions = [scaled] ++ function :: [] := listed
  obtain ⟨renamedEnv, object, renamedObject, same⟩ := Object.own_names_free accepted split
    (by rw [own.2]; exact fun first here second there => apart first here second there)
    (by rw [own.2, constants, functions]; decide)
  exact ⟨program, env, scaled, function, renamedEnv, object, renamedObject, parsed, accepted,
    listed, own.2, renamed.2, same⟩

end DoubleLang
