import DoubleLang.Proofs.Frame.Liveness
import DoubleLang.Proofs.Frame.Storage
import DoubleLang.Proofs.Object.Emission

/-!
When there is no code for a program.

Code looks up the slot of a name in two places: where an expression reads a name from the frame, and
where an assignment stores its value. The second kind never fails, for a target with code is read
and live. The first kind fails exactly on names that are read, but are neither parameters nor
targets of live statements; and every name that is read stands in an expression with code.
-/

namespace DoubleLang

/-- A step for each member of a list fails only where the step for one of them does. -/
private theorem exists_of_mapM_eq_error {ε α β : Type} {step : α → Except ε β} {items : List α}
    {fault : ε} (failed : items.mapM step = .error fault) :
    ∃ item ∈ items, step item = .error fault := by
  -- The first step fails, or the others do behind it.
  induction items with
  | nil => cases failed
  | cons item rest ih =>
    rw [List.mapM_cons] at failed
    cases first : step item with
    | error cause =>
      rw [first] at failed
      cases failed
      exact ⟨item, List.mem_cons_self, first⟩
    | ok value =>
      cases later : rest.mapM step with
      | error cause =>
        rw [first, later] at failed
        cases failed
        obtain ⟨other, member, found⟩ := ih later
        exact ⟨other, List.mem_cons_of_mem item member, found⟩
      | ok values =>
        rw [first, later] at failed
        cases failed

/-- A name that a function reads, but neither takes as a parameter nor assigns before it returns. -/
structure Function.Unplaced {α : Type} (env : Environment) (function : Function α)
    (name : String) : Prop where
  read : name ∈ (Frame.ofFunction env function).reads
  no_parameter : name ∉ function.params.map (·.name)
  no_target : name ∉ Statement.targets function.live

namespace Emission

variable {α : Type}

/-- The cell of a name in the frame, or the failure to find one. -/
def slot (function : String) (frame : Frame) (name : String) : Except MissingSlot Operand :=
  match frame.slots.get? name with
  | some offset => .ok (frameCell offset)
  | none => .error ⟨name, function⟩

mutual

/-- The code of an expression, with a look-up wherever a name is read from the frame. -/
def attemptExpr (function : String) (frame : Frame) (number : Nat) :
    Expr α → Except MissingSlot (List Instruction)
  | .literal _ _ => return [load (symbol (PoolName.entry function number))]
  | .name _ name =>
    if frame.reads.contains name then return [load (← slot function frame name)]
    else return [load (symbol name)]
  | .binary _ op left right => do
    let first ← attemptExpr function frame number left
    let second ← attemptExpr function frame (number + left.literalCount) right
    return first ++ (spill ++ (second ++ combine op))
  | .call _ callee args => do
    return (← attemptSpilled function frame number args) ++ call callee args.length
  | .group _ inner => attemptExpr function frame number inner

/-- The code that puts arguments on the stack, with look-ups. -/
def attemptSpilled (function : String) (frame : Frame) (number : Nat) :
    List (Expr α) → Except MissingSlot (List Instruction)
  | [] => return []
  | arg :: rest => do
    let first ← attemptExpr function frame number arg
    let others ← attemptSpilled function frame (number + arg.literalCount) rest
    return first ++ (spill ++ others)

end

/-- The code of a statement, with a look-up for the target of an assignment as well. -/
def attemptStatement (function : String) (frame : Frame) (number : Nat) :
    Statement α → Except MissingSlot (List Instruction)
  | .returns _ value => attemptExpr function frame number value
  | .assign _ target value => do
    let code ← attemptExpr function frame number value
    let cell ← slot function frame target
    return code ++ [store cell]

/-- The code of live statements, with look-ups in those that have code. -/
def attemptStatements (function : String) (frame : Frame) (number : Nat) :
    List (Statement α) → Except MissingSlot (List Instruction)
  | [] => return []
  | first :: rest => do
    let code ← if hasCode frame first then attemptStatement function frame number first
      else .ok []
    let others ← attemptStatements function frame (number + first.value.literalCount) rest
    return code ++ others

/-- The code of a function, with a look-up wherever the code needs a slot. -/
def attempt (env : Environment) (function : Function α) : Except MissingSlot Routine := do
  let frame := Frame.ofFunction env function
  let code ← attemptStatements function.name frame 0 function.live
  return ⟨function.name, function.arity, frame.size, opening frame ++ (code ++ closing)⟩

/-- Code, unless a slot is missing. -/
def unlessMissing (function : String) (missing : Option String) (code : List Instruction) :
    Except MissingSlot (List Instruction) :=
  match missing with
  | some name => .error ⟨name, function⟩
  | none => .ok code

/-- Whether a name is to be read from the frame and is not in it. -/
def isMissing (frame : Frame) (name : String) : Bool :=
  frame.reads.contains name && !frame.slots.contains name

/-- Code in two parts fails where the first part does, or else where the second does. -/
private theorem unlessMissing_bind (function : String) (test : String → Bool)
    (first second : List String)
    (code others : List Instruction)
    (join : List Instruction → List Instruction → List Instruction) :
    (do
      let front ← unlessMissing function (first.find? test) code
      let back ← unlessMissing function (second.find? test) others
      return join front back) =
    unlessMissing function ((first ++ second).find? test) (join code others) := by
  -- A name that is missing in the first part comes before all names of the second.
  rw [List.find?_append]
  cases first.find? test with
  | some name => rfl
  | none =>
    cases second.find? test with
    | some name => rfl
    | none => rfl

mutual

/-- The look-ups of an expression fail at the first name that is missing. -/
private theorem attemptExpr_eq (function : String) (frame : Frame) (number : Nat) :
    ∀ tree : Expr α, attemptExpr function frame number tree =
      unlessMissing function (tree.names.find? (isMissing frame)) (expr function frame number tree)
  | .literal _ _ => rfl
  | .name _ name => by
    simp only [attemptExpr, Expr.names, List.find?_cons, List.find?_nil, isMissing, expr, place,
      slot, ← Table.isSome_get?]
    -- A name that is read has a cell or is missing, and any other is among the data.
    cases read : frame.reads.contains name with
    | false => cases frame.slots.get? name <;> rfl
    | true => cases frame.slots.get? name <;> rfl
  | .binary _ op left right => by
    rw [attemptExpr, attemptExpr_eq function frame number left,
      attemptExpr_eq function frame (number + left.literalCount) right]
    exact unlessMissing_bind function _ _ _ _ _ fun first second =>
      first ++ (spill ++ (second ++ combine op))
  | .call _ callee args => by
    rw [attemptExpr, attemptSpilled_eq function frame number args, Expr.names, expr]
    cases (Expr.namesOfAll args).find? (isMissing frame) <;> rfl
  | .group _ inner => by
    simpa only [attemptExpr, Expr.names, expr] using attemptExpr_eq function frame number inner

/-- The look-ups of arguments fail at the first name that is missing. -/
private theorem attemptSpilled_eq (function : String) (frame : Frame) (number : Nat) :
    ∀ args : List (Expr α), attemptSpilled function frame number args =
      unlessMissing function ((Expr.namesOfAll args).find? (isMissing frame))
        (spilled function frame number args)
  | [] => rfl
  | arg :: rest => by
    rw [attemptSpilled, attemptExpr_eq function frame number arg,
      attemptSpilled_eq function frame (number + arg.literalCount) rest]
    exact unlessMissing_bind function _ _ _ _ _ fun first others => first ++ (spill ++ others)

end

/-- The look-ups of a statement whose target has a cell fail at the first name that is missing. -/
private theorem attemptStatement_eq (function : String) {frame : Frame} (number : Nat)
    {tree : Statement α} (coded : hasCode frame tree = true)
    (placed : ∀ target, tree.target? = some target → target ∈ frame.slots.names) :
    attemptStatement function frame number tree =
      unlessMissing function (tree.value.names.find? (isMissing frame))
        (statement function frame number tree) := by
  -- Names are asked for in the order in which they are written, the target last.
  cases tree with
  | returns note value => exact attemptExpr_eq function frame number value
  | assign note target value =>
    rw [attemptStatement, attemptExpr_eq, statement, Statement.value]
    -- The target is read and has a cell, so both look for it there.
    have there := Table.isSome_get? frame.slots target
    rw [Table.contains_iff.mpr (placed target rfl), Option.isSome_iff_exists] at there
    obtain ⟨offset, found⟩ := there
    have cell : place frame target = frameCell offset := by
      simp only [place, found]
      exact if_pos coded
    rw [cell, slot, found]
    cases value.names.find? (isMissing frame) <;> rfl

/-- The look-ups of live statements fail at the first name that is missing. -/
private theorem attemptStatements_eq (function : String) {frame : Frame} (number : Nat)
    {live : List (Statement α)}
    (placed : ∀ target ∈ Statement.targets live, target ∈ frame.reads →
      target ∈ frame.slots.names) :
    attemptStatements function frame number live =
      unlessMissing function (missing? frame live) (statements function frame number live) := by
  -- Statement by statement: the first that fails ends the attempt.
  induction live generalizing number with
  | nil => rfl
  | cons first rest ih =>
    have later := ih (number + first.value.literalCount) fun target member =>
      placed target (by
        rw [Statement.targets, List.filterMap_cons]
        split
        · exact member
        · exact List.mem_cons_of_mem _ member)
    rw [attemptStatements, later, missing?, missing?, statements]
    cases coded : hasCode frame first with
    | false =>
      -- A statement without code asks for nothing.
      rw [if_neg (by simp), List.filter_cons_of_neg (by simp [coded]), if_neg (by simp)]
      exact unlessMissing_bind function _ [] _ [] _ (· ++ ·)
    | true =>
      rw [if_pos rfl, if_pos rfl, List.filter_cons_of_pos coded, List.flatMap_cons,
        attemptStatement_eq function number coded]
      · exact unlessMissing_bind function _ _ _ _ _ (· ++ ·)
      · intro target assigned
        cases first with
        | returns note value => cases assigned
        | assign note name value =>
          cases assigned
          exact placed target List.mem_cons_self (List.contains_iff_mem.mp coded)

variable (env : Environment) (function : Function α)

/-- A name that is read has no slot exactly if it is neither a parameter nor a live target. -/
private theorem unplaced_iff {name : String} :
    function.Unplaced env name ↔ name ∈ (Frame.ofFunction env function).reads ∧
      name ∉ (Frame.ofFunction env function).slots.names := by
  -- The names with slots are known from the frame.
  constructor
  · rintro ⟨read, no_parameter, no_target⟩
    refine ⟨read, fun slot => ?_⟩
    rcases (Frame.mem_names_slots env function).mp slot with
      stack | ⟨-, register | ⟨-, -, target⟩⟩
    · exact no_parameter ((List.drop_sublist 8 _).subset stack)
    · exact no_parameter ((List.take_sublist 8 _).subset register)
    · exact no_target target
  · rintro ⟨read, slotless⟩
    rw [Frame.mem_names_slots, not_or, not_and, not_or, not_and, not_and] at slotless
    obtain ⟨stack, others⟩ := slotless
    obtain ⟨register, target⟩ := others (List.ne_nil_of_mem read)
    -- A parameter would be on the stack or in a register.
    have no_parameter : name ∉ function.params.map (·.name) := by
      rw [← List.take_append_drop 8 (function.params.map (·.name)), List.mem_append, not_or]
      exact ⟨register, stack⟩
    exact ⟨read, no_parameter, target no_parameter read⟩

/-- Every name that is read stands in a live statement with code. -/
private theorem exists_coded_of_read {name : String}
    (read : name ∈ (Frame.ofFunction env function).reads) :
    ∃ tree ∈ function.live, hasCode (Frame.ofFunction env function) tree = true ∧
      name ∈ tree.value.names := by
  -- What is read can be reached from the return, so it stands at the end of some way.
  rw [Frame.reads_ofFunction, Frame.mem_readsOf_iff_reachable] at read
  obtain ⟨first, returned, reached⟩ := read
  -- That way is none at all, or its last step is an assignment to a name that is read.
  rcases reached.cases_tail with rfl | ⟨target, before, note, value, member, stands, -⟩
  · obtain ⟨note, value, member, stands, -⟩ := returned
    exact ⟨_, member, rfl, (value.mem_names_iff).mpr stands⟩
  · refine ⟨_, member, ?_, (value.mem_names_iff).mpr stands⟩
    rw [hasCode, List.contains_iff_mem, Frame.reads_ofFunction, Frame.mem_readsOf_iff_reachable]
    exact ⟨first, returned, before⟩

/-- A slot is missing only for a name that is not placed. -/
private theorem unplaced_of_missing? {name : String}
    (missing : missing? (Frame.ofFunction env function) function.live = some name) :
    function.Unplaced env name := by
  -- What is found passes the test, and the test is that for a slot that is missing.
  have found := List.find?_some missing
  rw [Bool.and_eq_true, List.contains_iff_mem, Bool.not_eq_true', ← Bool.not_eq_true,
    Table.contains_iff] at found
  exact (unplaced_iff env function).mpr found

/-- A slot is missing if there is a name that is not placed. -/
private theorem isSome_missing? {name : String} (unplaced : function.Unplaced env name) :
    (missing? (Frame.ofFunction env function) function.live).isSome = true := by
  -- Whatever is read is read by a statement with code.
  obtain ⟨read, slotless⟩ := (unplaced_iff env function).mp unplaced
  obtain ⟨tree, member, coded, stands⟩ := exists_coded_of_read env function read
  rw [missing?, List.find?_isSome]
  refine ⟨name, List.mem_flatMap.mpr ⟨tree, List.mem_filter.mpr ⟨member, coded⟩, stands⟩, ?_⟩
  simp [read, slotless, Table.contains]

/-- There is code for a function exactly where every look-up finds its slot, and else the first one
that does not is reported. -/
theorem routine_eq_attempt : routine env function = attempt env function := by
  -- A live target that is read has a slot, so storing a value never fails.
  have placed : ∀ target ∈ Statement.targets function.live,
      target ∈ (Frame.ofFunction env function).reads →
        target ∈ (Frame.ofFunction env function).slots.names := by
    intro target assigned read
    by_contra slotless
    exact ((unplaced_iff env function).mpr ⟨read, slotless⟩).no_target assigned
  rw [routine, attempt, attemptStatements_eq function.name 0 placed]
  cases missing? (Frame.ofFunction env function) function.live <;> rfl

/-- There is no code for a function with a name that is not placed. -/
private theorem exists_error_of_unplaced {name : String} (unplaced : function.Unplaced env name) :
    ∃ missing, routine env function = .error missing := by
  -- That name or an earlier one is missing.
  obtain ⟨first, found⟩ :=
    Option.isSome_iff_exists.mp (isSome_missing? env function unplaced)
  exact ⟨⟨first, function.name⟩, by simp only [routine, found]⟩

/-- What is reported of a function is its name and a name that is not placed. -/
private theorem unplaced_of_routine_eq_error {missing : MissingSlot}
    (failed : routine env function = .error missing) :
    missing.function = function.name ∧ function.Unplaced env missing.name := by
  -- There is one way to fail.
  rw [routine] at failed
  cases found : missing? (Frame.ofFunction env function) function.live with
  | some name =>
    rw [found] at failed
    cases failed
    exact ⟨rfl, unplaced_of_missing? env function found⟩
  | none =>
    rw [found] at failed
    cases failed

end Emission

/-- A program has no code exactly where one of its functions has none. -/
private theorem Object.ofProgram_eq_error_iff {α : Type} {env : Environment} {program : Program α}
    {missing : MissingSlot} : Object.ofProgram env program = .error missing ↔
      program.functions.mapM (Emission.routine env) = .error missing := by
  -- Sorting the data never fails.
  rw [Object.ofProgram]
  cases program.functions.mapM (Emission.routine env) <;>
    simp [bind, Except.bind, pure, Except.pure]

/-- Code is made with a look-up wherever it needs a slot. In an environment of any origin, there is
no code exactly if some function reads a name that is neither one of its parameters nor a target of
its live statements, and such a name is reported. In the environment of the program itself there
always is code. -/
theorem Object.fails_exactly_on_unplaced_names (env : Environment) (program : Program Span) :
    (∀ function ∈ program.functions,
      Emission.routine env function = Emission.attempt env function) ∧
    ((∃ missing, Object.ofProgram env program = .error missing) ↔
      ∃ function ∈ program.functions, ∃ name, function.Unplaced env name) ∧
    (∀ missing, Object.ofProgram env program = .error missing →
      ∃ function ∈ program.functions, missing.function = function.name ∧
        function.Unplaced env missing.name) ∧
    (program.check = .ok env → ∃ object, Object.ofProgram env program = .ok object) := by
  -- A failure is that of the first function without code.
  have reported : ∀ missing, Object.ofProgram env program = .error missing →
      ∃ function ∈ program.functions, missing.function = function.name ∧
        function.Unplaced env missing.name := by
    intro missing failed
    obtain ⟨function, member, fault⟩ :=
      exists_of_mapM_eq_error (Object.ofProgram_eq_error_iff.mp failed)
    exact ⟨function, member, Emission.unplaced_of_routine_eq_error env function fault⟩
  refine ⟨fun function _ => Emission.routine_eq_attempt env function, ⟨?_, ?_⟩, reported, ?_⟩
  · rintro ⟨missing, failed⟩
    obtain ⟨function, member, -, unplaced⟩ := reported missing failed
    exact ⟨function, member, missing.name, unplaced⟩
  · rintro ⟨function, member, name, unplaced⟩
    cases made : program.functions.mapM (Emission.routine env) with
    | error missing => exact ⟨missing, Object.ofProgram_eq_error_iff.mpr made⟩
    | ok routines =>
      -- All functions would have code, and this one has none.
      have all := mapM_eq_ok_iff.mp made
      obtain ⟨index, rfl⟩ := List.get_of_mem member
      have found := all.get index.isLt (all.length_eq ▸ index.isLt)
      obtain ⟨missing, failed⟩ := Emission.exists_error_of_unplaced env _ unplaced
      rw [failed] at found
      cases found
  · intro accepted
    obtain ⟨object, made, -⟩ := Object.ofProgram_eq_ok (Program.checked_of_check accepted)
    exact ⟨object, made⟩

/-- In the environment of another program, a function may read a name that it does not have. -/
theorem Object.fails_in_foreign_environment : ∃ program own env,
    Program.parse "bare.dbl" "fun f() \x7b y = x; return y; \x7d" = .ok program ∧
      Program.parse "own.dbl" "fun f(x) \x7b y = x; return y; \x7d" = .ok own ∧
      own.check = .ok env ∧ Object.ofProgram env program = .error ⟨"x", "f"⟩ ∧
      ∃ object, Object.ofProgram env own = .ok object := by
  -- Two programs are read, and one is compiled in the environment of the other.
  obtain ⟨own, env, parsedOwn, accepted, given⟩ := Program.exists_of_verdict? "own.dbl"
    "fun f(x) \x7b y = x; return y; \x7d"
    (fun own => decide (
      (Program.parse "bare.dbl" "fun f() \x7b y = x; return y; \x7d").toOption.bind
        (fun program => own.check.toOption.map fun env => program.functions.map fun function =>
          (function.name, (Frame.ofFunction env function).reads, function.params.map (·.name),
            Statement.targets function.live)) = some [("f", ["y", "x"], [], ["y"])]))
    true (by decide +kernel)
  have listing := of_decide_eq_true given
  rw [Option.bind_eq_some_iff] at listing
  obtain ⟨program, found, functions⟩ := listing
  have parsed : Program.parse "bare.dbl" "fun f() \x7b y = x; return y; \x7d" = .ok program := by
    cases read : Program.parse "bare.dbl" "fun f() \x7b y = x; return y; \x7d" with
    | error report => simp [read, Except.toOption] at found
    | ok other => simpa [read, Except.toOption] using found
  simp only [accepted, Except.toOption, Option.map_some, Option.some.injEq] at functions
  obtain ⟨function, single, same⟩ := List.map_eq_singleton_iff.mp functions
  simp only [Prod.mk.injEq] at same
  obtain ⟨named, reads, params, targets⟩ := same
  obtain ⟨-, fails, reports, -⟩ := Object.fails_exactly_on_unplaced_names env program
  obtain ⟨missing, failed⟩ := fails.mpr ⟨function, by simp [single], "x",
    by simp [reads], by simp [params], by simp [targets]⟩
  -- There is one function, and the only name that it does not have is reported.
  obtain ⟨other, member, owner, unplaced⟩ := reports missing failed
  obtain rfl : other = function := by simpa [single] using member
  have read := unplaced.read
  have assigned := unplaced.no_target
  simp only [reads, targets, List.mem_cons, List.not_mem_nil, or_false] at read assigned
  have reported : missing = ⟨"x", "f"⟩ := by
    obtain ⟨name, holder⟩ := missing
    simp_all
  exact ⟨program, own, env, parsed, parsedOwn, accepted, reported ▸ failed,
    (Object.fails_exactly_on_unplaced_names env own).2.2.2 accepted⟩

end DoubleLang
