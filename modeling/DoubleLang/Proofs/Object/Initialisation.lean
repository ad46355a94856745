import DoubleLang.Proofs.Object.Occurrence

/-!
Code loads nothing from the frame before it has put a value there.

A name that is loaded from the frame is read, so whatever the check takes it from has code: a
parameter has its place or is kept when the frame is opened, and an earlier assignment stores its
value even if others are passed over.
-/

namespace DoubleLang

open Emission

variable {α : Type}

/-- An instruction that puts a double into a cell counted from the base of the frame. -/
def Instruction.Stores (offset : Int) (instruction : Instruction) : Prop :=
  ∃ register, instruction = ⟨.movsd, [double register, frameCell offset]⟩

/-- An instruction that uses a cell counted from the base, other than to put a double there. -/
def Instruction.Loads (offset : Int) (instruction : Instruction) : Prop :=
  frameCell offset ∈ instruction.operands ∧ ¬instruction.Stores offset

namespace Emission

/-- Code through the place where the opening of a function keeps a parameter in a cell. -/
def KeepsParameter (frame : Frame) (offset : Int) (code : List Instruction) : Prop :=
  code <+: opening frame ∧ ∃ arrival ∈ frame.arrivals, arrival.offset = offset

/-- Code of a function through a live assignment to the name that a cell belongs to. -/
def KeepsTarget (function : Function α) (frame : Frame) (offset : Int) (code : List Instruction) :
    Prop :=
  ∃ earlier note target value later, function.live = earlier ++ .assign note target value :: later ∧
    target ∈ frame.reads ∧ frame.slots.get? target = some offset ∧
    code = opening frame ++
      statements function.name frame 0 (earlier ++ [.assign note target value])

end Emission

/-- What holds of the loads of a function. -/
structure Routine.Initialised (function : Function α) (frame : Frame) (routine : Routine) :
    Prop where
  /-- A cell below the base has been stored to, when the frame was opened or by an assignment. -/
  below : ∀ {front rest : List Instruction} {instruction : Instruction} {offset : Int},
    routine.instructions = front ++ instruction :: rest → instruction.Loads offset → offset < 0 →
      ∃ before store, before ++ [store] <+: front ∧ store.Stores offset ∧
        (KeepsParameter frame offset (before ++ [store]) ∨
          KeepsTarget function frame offset (before ++ [store]))
  /-- A cell above it is that of a parameter which the caller has left on the stack. -/
  above : ∀ {front rest : List Instruction} {instruction : Instruction} {offset : Int},
    routine.instructions = front ++ instruction :: rest → instruction.Loads offset → 0 ≤ offset →
      ∃ (index : Nat) (param : Parameter α), 8 ≤ index ∧ function.params[index]? = some param ∧
        frame.slots.get? param.name = some offset ∧
        offset = 0x10 + 0x10 * ((function.arity : Int) - 1 - index)

namespace Emission

/-- Bringing a double from a cell to the register where values land. -/
private theorem loads_load (offset : Int) : (load (frameCell offset)).Loads offset := by
  -- A load has the cell first, and no store is of that form.
  refine ⟨List.mem_cons_self, ?_⟩
  rintro ⟨register, same⟩
  cases same

/-- A name that is found in the frame is read, and has its slot there. -/
private theorem place_eq_frameCell {frame : Frame} {name : String} {offset : Int}
    (same : place frame name = frameCell offset) :
    name ∈ frame.reads ∧ frame.slots.get? name = some offset := by
  -- A place in the frame is given only to what is read and has a slot.
  unfold place at same
  split at same
  · rename_i there found
    split at same
    · rename_i read
      cases same
      exact ⟨List.contains_iff_mem.mp read, found⟩
    · cases same
  · cases same

/-- Only a name of an expression is loaded from the frame. -/
private theorem Arises.name_of_loads {frame : Frame} {function : Function α}
    {front : List Instruction}
    {instruction : Instruction} {offset : Int} (arises : Arises frame function front instruction)
    (loads : instruction.Loads offset) :
    ∃ number note read, Occurs frame function front number (.name note read) ∧
      read ∈ frame.reads ∧ frame.slots.get? read = some offset := by
  -- Every instruction has its purpose, and that tells what it does to the cell.
  obtain ⟨used, loads⟩ := loads
  cases arises with
  | literal _ => simp [load, symbol, double, frameCell] at used
  | @name _ number note read occurs =>
    have same : place frame read = frameCell offset := by
      simpa [load, double, frameCell, eq_comm] using used
    exact ⟨number, note, read, occurs, place_eq_frameCell same⟩
  | call _ => simp [frameCell] at used
  | @arrival _ arrival _ =>
    -- The cell of a parameter is stored to.
    have same : offset = arrival.offset := by simpa [double, frameCell] using used
    exact absurd ⟨arrival.register, by rw [same]⟩ loads
  | @target _ _ target _ _ _ =>
    -- And so is that of a target.
    have same : frameCell offset = place frame target := by simpa [double, frameCell] using used
    exact absurd ⟨0, by rw [same]⟩ loads
  | nameless nameless => exact (nameless.operands _ used).elim

/-- A parameter that arrives in a register and is read is kept when the frame is opened. -/
private theorem exists_keepsParameter {function : Function α} {frame : Frame} {used : Nat}
    (serves : Frame.Serves function frame used) (register : DoubleRegister) {param : Parameter α}
    (there : function.params[register.val]? = some param) (read : param.name ∈ frame.reads) :
    ∃ before store, store.Stores (Frame.slotOffset register.val) ∧
      KeepsParameter frame (Frame.slotOffset register.val) (before ++ [store]) := by
  -- The parameter arrives in its register, so the frame is not empty.
  have arrives := serves.arrives there read
  have room : frame.size ≠ 0 := by
    intro bare
    simp [serves.arrivals_eq_nil bare] at arrives
  have member : ⟨.movsd, [double register, frameCell (Frame.slotOffset register.val)]⟩ ∈
      opening frame := by
    rw [opening, if_neg room]
    exact List.mem_append_right _ (List.mem_cons_of_mem _ (List.mem_map.mpr ⟨_, arrives, rfl⟩))
  obtain ⟨before, after, split⟩ := List.append_of_mem member
  refine ⟨before, _, ⟨register, rfl⟩, ⟨after, ?_⟩, _, arrives, rfl⟩
  rw [split, List.append_assoc, List.singleton_append]

/-- A name that has been assigned to and is read has been stored to. -/
private theorem exists_keepsTarget {function : Function α} {frame : Frame}
    {earlier later : List (Statement α)} (split : function.live = earlier ++ later)
    {name : String} {offset : Int} (assigned : name ∈ Statement.targets earlier)
    (read : name ∈ frame.reads) (found : frame.slots.get? name = some offset) :
    ∃ before store,
      before ++ [store] <+: opening frame ++ statements function.name frame 0 earlier ∧
        store.Stores offset ∧ KeepsTarget function frame offset (before ++ [store]) := by
  -- The assignment stands among the earlier statements.
  obtain ⟨tree, member, targeted⟩ := List.mem_filterMap.mp assigned
  obtain ⟨first, second, rfl⟩ := List.append_of_mem member
  cases tree with
  | returns note value => cases targeted
  | assign note target value =>
    cases targeted
    -- The assignment has code, and its last instruction is the store.
    have code : opening frame ++
        statements function.name frame 0 (first ++ [.assign note name value]) =
        (opening frame ++ (statements function.name frame 0 first ++
          expr function.name frame (first.flatMap (·.value.literals)).length value)) ++
            [store (frameCell offset)] := by
      rw [statements_append, Nat.zero_add]
      simp [statements, statement, hasCode, read, place_of_mem read found]
    refine ⟨_, store (frameCell offset), ?_, ⟨0, rfl⟩, first, note, name, value, second ++ later,
      ?_, read, found, code.symm⟩
    · -- What the later statements add stands behind it.
      have whole := statements_append function.name frame 0 (first ++ [.assign note name value])
        second
      rw [List.append_assoc, List.singleton_append] at whole
      rw [← code, whole, ← List.append_assoc]
      exact List.prefix_append _ _
    · rw [split, List.append_assoc, List.cons_append]

/-- The code of a function in order loads only what it has stored, and parameters on the stack. -/
private theorem initialised_compiled {env : Environment} {function : Function Span}
    (checked : function.Checked env.toGlobals (env.scope function.name)) :
    (compiled env function).Initialised function (Frame.ofFunction env function) := by
  -- What is loaded is a name, and its slot tells where it was stored.
  obtain ⟨used, serves⟩ := Frame.ofFunction_serves env checked.params_distinct
  constructor
  · intro front rest instruction offset same loads low
    obtain ⟨number, note, read, occurs, kept, found⟩ :=
      (arises_of_code same).name_of_loads loads
    obtain ⟨earlier, tree, later, split, coded, behind, names⟩ := occurs.exists_statement
    -- The check takes the name from a parameter or from an earlier assignment.
    rcases checked.read_or_constant split coded (names (List.mem_singleton_self read)) with
      ⟨-, listed | assigned⟩ | ⟨unread, -⟩
    · obtain ⟨param, member, rfl⟩ := List.mem_map.mp listed
      obtain ⟨index, there⟩ := List.mem_iff_getElem?.mp member
      have small := (List.getElem?_eq_some_iff.mp there).1
      have place := serves.parameters there kept
      rw [found, Option.some.injEq, Frame.parameterOffset] at place
      by_cases early : index < 8
      · obtain ⟨before, store, stores, keeps⟩ :=
          exists_keepsParameter serves ⟨index, early⟩ there kept
        rw [if_pos early] at place
        subst place
        exact ⟨before, store, keeps.1.trans ((List.prefix_append _ _).trans behind), stores,
          .inl keeps⟩
      · -- A parameter on the stack lies above the base.
        rw [if_neg early] at place
        simp only [Frame.stackOffset, Frame.spillSize] at place
        omega
    · obtain ⟨before, store, code, stores, keeps⟩ := exists_keepsTarget split assigned kept found
      exact ⟨before, store, code.trans behind, stores, .inr keeps⟩
    · exact absurd kept unread
  · intro front rest instruction offset same loads high
    obtain ⟨number, note, read, -, kept, found⟩ := (arises_of_code same).name_of_loads loads
    -- A slot that is not below the base belongs to a parameter on the stack.
    rcases serves.laid.inside found with ⟨number, -, rfl⟩ | ⟨index, param, late, there, rfl, place⟩
    · exact absurd (Frame.slotOffset_neg number) (Int.not_lt.mpr high)
    · exact ⟨index, param, late, there, found, place⟩

end Emission

/-- Every function of a program in order has code, and its code loads from a cell below the base
only behind a store to that cell, and from above the base only parameters from the ninth on. -/
theorem Object.code_loads_initialised_cells {program : Program Span} {env : Environment}
    (accepted : program.check = .ok env) :
    ∃ object, Object.ofProgram env program = .ok object ∧
      List.Forall₂ (fun function routine => routine.name = function.name ∧
        routine.Initialised function (Frame.ofFunction env function))
          program.functions object.routines := by
  -- Every function of a checked program has code.
  have checked := Program.checked_of_check accepted
  obtain ⟨object, made, routines, -⟩ := Object.ofProgram_eq_ok checked
  refine ⟨object, made, ?_⟩
  rw [routines, List.forall₂_map_right_iff, List.forall₂_same]
  exact fun function member => ⟨rfl, initialised_compiled (checked.functions function member)⟩

/-- A function of nine parameters with a local that is read and one that is not: the first parameter
and the local are stored before they are loaded, and the last parameter is left on the stack. -/
theorem Object.code_loads_initialised_cells_of_nine : ∃ program env object function routine,
    Program.parse "nine.dbl" ("fun f(a, b, c, d, e, g, h, i, j) " ++
      "\x7b v = 7; u = j * a; i = u; return u + j - i; \x7d") = .ok program ∧
      program.check = .ok env ∧ Object.ofProgram env program = .ok object ∧
      program.functions = [function] ∧ object.routines = [routine] ∧
      (∀ offset ∈ ([-8, -0x48] : List Int), ∃ front rest before store,
        routine.instructions = front ++ load (frameCell offset) :: rest ∧
          before ++ [store] <+: front ∧ store.Stores offset) ∧
      ∃ (front rest : List Instruction) (index : Nat) (param : Parameter Span),
        routine.instructions = front ++ load (frameCell 0x10) :: rest ∧
        8 ≤ index ∧ function.params[index]? = some param ∧
        (0x10 : Int) = 0x10 + 0x10 * ((function.arity : Int) - 1 - index) := by
  -- One run finds the three loads in the code.
  obtain ⟨program, env, parsed, accepted, given⟩ := Program.exists_of_verdict? "nine.dbl"
    ("fun f(a, b, c, d, e, g, h, i, j) " ++
      "\x7b v = 7; u = j * a; i = u; return u + j - i; \x7d")
    (fun program => decide (program.functions.length = 1 ∧ program.check.toOption.bind (fun env =>
      (Object.ofProgram env program).toOption.map fun object => object.routines.map fun routine =>
        ([-8, -0x48, 0x10] : List Int).map fun offset =>
          decide (load (frameCell offset) ∈ routine.instructions)) = some [[true, true, true]]))
    true (by decide +kernel)
  obtain ⟨object, made, initialised⟩ := Object.code_loads_initialised_cells accepted
  obtain ⟨single, loaded⟩ := of_decide_eq_true given
  obtain ⟨function, functions⟩ := List.length_eq_one_iff.mp single
  -- There is one function, so there is one routine.
  simp only [functions, List.forall₂_cons_left_iff, List.forall₂_nil_left_iff] at initialised
  obtain ⟨routine, _, ⟨-, initialised⟩, rfl, routines⟩ := initialised
  simp only [accepted, made, routines, Except.toOption, Option.bind_some, Option.map_some,
    List.map_cons, List.map_nil, Option.some.injEq, List.cons.injEq, decide_eq_true_eq,
    and_true] at loaded
  refine ⟨program, env, object, function, routine, parsed, accepted, made, functions, routines,
    ?_, ?_⟩
  · intro offset member
    have low : offset < 0 ∧ load (frameCell offset) ∈ routine.instructions := by
      simp only [List.mem_cons, List.not_mem_nil, or_false] at member
      rcases member with rfl | rfl
      · exact ⟨by decide, loaded.1⟩
      · exact ⟨by decide, loaded.2.1⟩
    obtain ⟨front, rest, split⟩ := List.append_of_mem low.2
    obtain ⟨before, store, first, stores, -⟩ := initialised.below split (loads_load offset) low.1
    exact ⟨front, rest, before, store, split, first, stores⟩
  · obtain ⟨front, rest, split⟩ := List.append_of_mem loaded.2.2
    obtain ⟨index, param, late, there, -, place⟩ :=
      initialised.above split (loads_load 0x10) (by decide)
    exact ⟨front, rest, index, param, split, late, there, place⟩

end DoubleLang
