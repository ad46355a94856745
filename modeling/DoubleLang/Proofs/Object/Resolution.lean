import DoubleLang.Proofs.Object.Occurrence
import DoubleLang.Proofs.Object.PoolLoads
import DoubleLang.Proofs.Program.Reordering

/-!
Everything that code names is part of the compiled program.

A name of an expression is taken for a symbol merely because the frame does not take it as read. The
check has found it among the parameters, the earlier targets or the constants, and the first two are
read wherever they have code; so it is a constant, and there is one piece of data for it.
-/

namespace DoubleLang

open Emission Levels

/-- Where names are distinct, there is one item of each name. -/
private theorem filter_name_eq {α : Type} [DecidableEq α] {name : α → String} {items : List α}
    (distinct : (items.map name).Nodup) {item : α} (member : item ∈ items) :
    items.filter (fun other => name other = name item) = [item] := by
  -- Another item of the name would be the item itself, and that is listed once.
  have alone : items.filter (fun other => name other = name item) = items.filter (· == item) := by
    refine List.filter_congr fun other listed => ?_
    rw [Bool.eq_iff_iff, decide_eq_true_eq, beq_iff_eq]
    exact ⟨List.inj_on_of_nodup_map distinct listed member, congrArg name⟩
  rw [alone, List.filter_beq, List.count_eq_one_of_mem distinct.of_map member, List.replicate_one]

/-- What the names in the code of a function of a compiled program stand for. -/
structure Routine.Resolved (program : Program Span) (object : Object) (function : Function Span)
    (frame : Frame) (routine : Routine) : Prop where
  /-- A symbol is that of a constant or of a literal, and there is one piece of data for it. -/
  symbols : ∀ {front rest : List Instruction} {instruction : Instruction} {operand : Operand}
    {name : String}, routine.instructions = front ++ instruction :: rest →
      operand ∈ instruction.operands → operand.symbol? = some name →
      ∃ number node, Occurs frame function front number node ∧
        ((∃ note, node = .name note name ∧ ∃ constant ∈ program.constants, constant.name = name ∧
            object.data.filter (·.name = name) = [⟨name, constant.value, .constant⟩]) ∨
          ∃ note text, node = .literal note text ∧
            object.data.filter (·.name = name) = [⟨name, text, .pool function.name⟩])
  /-- A call is that of one function, with the arguments that it takes: a pair of cells for each of
  them has been added to the stack since the code of the call began. -/
  calls : ∀ {front rest : List Instruction} {instruction : Instruction},
    routine.instructions = front ++ instruction :: rest → instruction.mnemonic = .callq →
      ∃ before number note callee args target, instruction = ⟨.callq, [.label callee]⟩ ∧
        Occurs frame function before number (.call note callee args) ∧
        front = before ++ (spilled function.name frame number args ++ loads args.length) ∧
        object.routines.filter (·.name = callee) = [target] ∧ target.arity = args.length ∧
        ∀ entry : Levels, ∃ levels, entry.follow? before = some levels ∧
          entry.follow? front = some (levels.lower (0x10 * target.arity))

/-- The offences of expressions in two parts. -/
private theorem Expr.offencesOfAll_append (program : Program Span) (function : String)
    (known : List String)
    (before after : List (Expr Span)) :
    Expr.offencesOfAll program function known (before ++ after) =
      Expr.offencesOfAll program function known before ++
        Expr.offencesOfAll program function known after := by
  -- Offences are listed expression by expression.
  induction before with
  | nil => rfl
  | cons arg rest ih => simp [Expr.offencesOfAll, ih]

namespace Emission

variable {env : Environment} {frame : Frame} {number : Nat} {front : List Instruction}

/-- In the code of an expression a function is where it may compute. -/
private theorem Occurs.exists_steady {α : Type} {function : Function α} {node : Expr α}
    (entry : Levels)
    (occurs : Occurs (Frame.ofFunction env function) function front number node) :
    ∃ levels, entry.follow? front = some levels ∧
      Steady (entry.top - 8) (Frame.ofFunction env function).size levels := by
  have fits := fits_place env function
  -- What is computed before a part of an expression leaves its values on the stack.
  induction occurs with
  | value _ _ =>
    -- A whole expression starts where statements start.
    exact ⟨_, follow?_statements env function entry _, steady_behind_opening env function entry⟩
  | left _ ih => exact ih
  | right _ ih =>
    obtain ⟨levels, followed, steady⟩ := ih
    refine ⟨levels.lower 16, follow?_append followed ?_, steady.lower 1⟩
    exact ((expr_passes fits _ _ steady _).append (spill_passes steady)).follow?_eq
  | arg _ ih =>
    obtain ⟨levels, followed, steady⟩ := ih
    exact ⟨_, follow?_append followed (spilled_passes fits _ _ steady _).follow?_eq,
      steady.lower _⟩
  | group _ ih => exact ih

/-- An expression with code has no offences, if its program has none. -/
theorem Occurs.offences_eq_nil {program : Program Span} {function : Function Span}
    {node : Expr Span} (unoffended : program.offences = []) (member : function ∈ program.functions)
    (occurs : Occurs frame function front number node) :
    ∃ known, node.offences program function.name known = [] := by
  -- A part of an expression is judged with the names that the whole is judged with.
  induction occurs with
  | @value earlier later tree split _ =>
    simp only [Program.offences, List.append_eq_nil_iff, List.flatMap_eq_nil_iff] at unoffended
    -- Dead statements are judged too, behind the live ones.
    obtain ⟨dead, whole⟩ := function.live_append
    have bodies := unoffended.2.2.2.2 function member
    rw [whole, split, List.append_assoc, List.cons_append] at bodies
    have statement := Offence.eq_nil_of_inTurn bodies
    rw [Statement.offences, List.append_eq_nil_iff] at statement
    exact ⟨_, statement.2⟩
  | left _ ih =>
    obtain ⟨known, passed⟩ := ih
    rw [Expr.offences, List.append_eq_nil_iff] at passed
    exact ⟨known, passed.1⟩
  | right _ ih =>
    obtain ⟨known, passed⟩ := ih
    rw [Expr.offences, List.append_eq_nil_iff] at passed
    exact ⟨known, passed.2⟩
  | arg _ ih =>
    obtain ⟨known, passed⟩ := ih
    rw [Expr.offences, Expr.offencesOfAll_append, Expr.offencesOfAll, List.append_eq_nil_iff,
      List.append_eq_nil_iff, List.append_eq_nil_iff] at passed
    exact ⟨known, passed.2.2.1⟩
  | group _ ih => exact ih

/-- An operand that names nothing names no symbol. -/
private theorem symbol?_of_nameless {operand : Operand} (nameless : operand.Nameless) :
    operand.symbol? = none := by
  -- Only an operand in memory may have a symbol, and not one that names nothing.
  cases operand with
  | memory base displacement =>
    cases displacement with
    | bytes offset => rfl
    | symbol name => cases base <;> exact nameless.elim
  | register _ => rfl
  | immediate _ => rfl
  | label _ => rfl

/-- A name of a function in order that is found under a symbol is a constant. -/
private theorem Occurs.constant_of_symbol? {function : Function Span}
    (checked : function.Checked env.toGlobals (env.scope function.name)) {note : Span}
    {read name : String}
    (occurs : Occurs (Frame.ofFunction env function) function front number (.name note read))
    (found : (place (Frame.ofFunction env function) read).symbol? = some name) :
    name = read ∧ read ∈ env.constants.names := by
  -- The name is read by a statement with code.
  obtain ⟨earlier, tree, later, split, coded, -, names⟩ := occurs.exists_statement
  have asked : read ∈ tree.value.names := names (List.mem_singleton_self read)
  rcases checked.place_cases (by simp [split]) coded (List.mem_append_left _ asked) with
    ⟨offset, inside⟩ | ⟨data, constant⟩
  · rw [inside] at found
    cases found
  · rw [data] at found
    cases found
    exact ⟨rfl, constant⟩

end Emission

namespace Object.Compiles

variable {env : Environment} {program : Program Span} {object : Object} {function : Function Span}
  {frame : Frame} {front : List Instruction} {number : Nat}

/-- There is one piece of data for a constant. -/
private theorem filter_constant (compiles : object.Compiles env program) {name : String}
    (known : name ∈ env.constants.names) :
    ∃ constant ∈ program.constants, constant.name = name ∧
      object.data.filter (·.name = name) = [⟨name, constant.value, .constant⟩] := by
  -- The names in the environment are those of the constants.
  rw [compiles.checked.names_constants] at known
  obtain ⟨constant, member, rfl⟩ := List.mem_map.mp known
  -- The constant is listed in the environment, and from there among the data.
  have listed : (constant.name, constant.value) ∈ env.constants.entries := by
    rw [compiles.checked.constants]
    exact List.mem_map.mpr ⟨constant, member, rfl⟩
  have entry : Datum.mk constant.name constant.value .constant ∈ object.data :=
    (compiles.data _).mpr (List.mem_append_left _ (List.mem_map.mpr ⟨_, listed, rfl⟩))
  exact ⟨constant, member, rfl, filter_name_eq compiles.distinct entry⟩

/-- There is one piece of data for a literal with code, under its number. -/
private theorem filter_literal (compiles : object.Compiles env program)
    (member : function ∈ program.functions) {note : Span} {text : String}
    (occurs : Occurs frame function front number (.literal note text)) :
    object.data.filter (·.name = PoolName.entry function.name number) =
      [⟨PoolName.entry function.name number, text, .pool function.name⟩] := by
  -- Statements that are never reached have their literals behind those of the others.
  obtain ⟨before, after, literals, rfl⟩ := occurs.exists_literals
  obtain ⟨dead, whole⟩ := function.live_append
  -- The literal stands at its number among all literals of the function.
  have there : function.literals[before.length]? = some text := by
    rw [Function.literals, whole, List.flatMap_append, literals, Expr.literals]
    simp
  have pooled : ⟨PoolName.entry function.name before.length, text, .pool function.name⟩ ∈
      pool function :=
    List.mem_map.mpr ⟨(text, before.length), List.mem_zipIdx_iff_getElem?.mpr there, rfl⟩
  exact filter_name_eq compiles.distinct ((compiles.data _).mpr
    (List.mem_append_right _ (List.mem_flatMap.mpr ⟨function, member, pooled⟩)))

/-- There is one function for a call with code, and it takes as many arguments. -/
private theorem filter_routine (compiles : object.Compiles env program)
    (unoffended : program.offences = [])
    (member : function ∈ program.functions) {note : Span} {callee : String}
    {args : List (Expr Span)}
    (occurs : Occurs frame function front number (.call note callee args)) :
    ∃ target, object.routines.filter (·.name = callee) = [target] ∧ target.arity = args.length := by
  -- A call in a program in order is in order itself.
  obtain ⟨known, passed⟩ := occurs.offences_eq_nil unoffended member
  rw [Expr.offences, List.append_eq_nil_iff, Program.callOffences_eq_nil_iff] at passed
  obtain ⟨declared, found, fits⟩ := Option.map_eq_some_iff.mp passed.1
  obtain ⟨listed, rfl⟩ := (find?_name_iff compiles.checked.functions_distinct).mp found
  -- Functions keep their names when they are compiled.
  have distinct : (object.routines.map (·.name)).Nodup := by
    rw [compiles.routines, List.map_map]
    exact compiles.checked.functions_distinct
  have there : compiled env declared ∈ object.routines := by
    rw [compiles.routines]
    exact List.mem_map_of_mem listed
  exact ⟨compiled env declared, filter_name_eq distinct there, fits⟩

/-- The code of a function of a compiled program names only what is part of it. -/
private theorem resolved_compiled (compiles : object.Compiles env program)
    (unoffended : program.offences = []) (member : function ∈ program.functions) :
    (compiled env function).Resolved program object function (Frame.ofFunction env function) := by
  -- Every instruction has its purpose, which says what it may name.
  have checked := compiles.checked.functions function member
  constructor
  · intro front rest instruction operand name same used named
    cases arises_of_code same with
    | @literal _ number note text occurs =>
      -- A load has a source and a register.
      have entry : name = PoolName.entry function.name number := by
        simp only [load, List.mem_cons, List.not_mem_nil, or_false] at used
        rcases used with rfl | rfl
        · cases named
          rfl
        · cases named
      subst entry
      exact ⟨number, _, occurs, .inr ⟨note, text, rfl, compiles.filter_literal member occurs⟩⟩
    | @name _ number note read occurs =>
      -- What is read has a slot, or it is a constant.
      have found : (place (Frame.ofFunction env function) read).symbol? = some name := by
        simp only [load, List.mem_cons, List.not_mem_nil, or_false] at used
        rcases used with rfl | rfl
        · exact named
        · cases named
      obtain ⟨rfl, known⟩ := occurs.constant_of_symbol? checked found
      exact ⟨number, _, occurs, .inl ⟨note, rfl, compiles.filter_constant known⟩⟩
    | call _ =>
      rw [List.mem_singleton.mp used] at named
      cases named
    | arrival _ =>
      simp only [List.mem_cons, List.not_mem_nil, or_false] at used
      rcases used with rfl | rfl <;> cases named
    | @target _ _ target _ live read =>
      -- The target of an assignment with code has a slot, for no constant is assigned to.
      obtain ⟨dead, whole⟩ := function.live_append
      have own := checked.targets_own target (List.mem_filterMap.mpr
        ⟨_, whole ▸ List.mem_append_left _ live, rfl⟩)
      simp only [List.mem_cons, List.not_mem_nil, or_false] at used
      rcases used with rfl | rfl
      · cases named
      · rcases checked.place_cases live (by simpa [hasCode] using read)
          (List.mem_append_right _ (List.mem_singleton_self target)) with
          ⟨offset, inside⟩ | ⟨-, constant⟩
        · rw [inside] at named
          cases named
        · exact absurd constant own
    | nameless nameless =>
      rw [symbol?_of_nameless (nameless.operands operand used)] at named
      cases named
  · -- Only what is there for a call has its mnemonic.
    intro front rest instruction same calls
    cases arises_of_code same with
    | @call before number note callee args occurs =>
      obtain ⟨target, one, arity⟩ := compiles.filter_routine unoffended member occurs
      refine ⟨before, number, note, callee, args, target, rfl, occurs, rfl, one, arity, ?_⟩
      intro entry
      obtain ⟨levels, followed, steady⟩ := occurs.exists_steady entry
      -- Each argument is left on the stack, and bringing them to registers takes none off.
      have passes := (spilled_passes (fits_place env function) function.name number steady
        args).append (loads_passes steady args.length)
      refine ⟨levels, followed, ?_⟩
      rw [arity]
      exact follow?_append followed passes.follow?_eq
    | nameless nameless => exact absurd calls nameless.calls_not
    | literal _ => cases calls
    | name _ => cases calls
    | arrival _ => cases calls
    | target _ _ => cases calls

end Object.Compiles

/-- A program in order, whose functions have identifiers for names, is compiled to a program that is
closed: every symbol in its code is that of one piece of its data, which is the constant or the
literal that the code is for, and every call is that of one of its functions, with as many arguments
as it takes. -/
theorem Object.code_names_resolved {program : Program Span} {env : Environment}
    (identified : program.Identified) (accepted : program.check = .ok env) :
    ∃ object, Object.ofProgram env program = .ok object ∧
      List.Forall₂ (fun function routine => routine.name = function.name ∧
        routine.Resolved program object function (Frame.ofFunction env function))
          program.functions object.routines := by
  -- An accepted program has no offences, and it is compiled.
  obtain ⟨object, made, compiles⟩ := Object.exists_compiles identified accepted
  obtain ⟨unoffended, -⟩ := Program.check_eq_ok_iff.mp accepted
  refine ⟨object, made, ?_⟩
  rw [compiles.routines, List.forall₂_map_right_iff, List.forall₂_same]
  exact fun function member => ⟨rfl, compiles.resolved_compiled unoffended member⟩

/-- Two calls of one function, with a constant and literals among the arguments; one of the literals
is in an assignment that nothing reads. -/
theorem Object.code_names_resolved_of_calls : ∃ program env object,
    Program.parse "calls.dbl" ("k = 2; fun g(a, b) \x7b return a - b * k; \x7d " ++
      "fun f(x) \x7b v = 5; u = g(x, 3); return g(u + 1, k); \x7d") = .ok program ∧
      program.check = .ok env ∧ Object.ofProgram env program = .ok object ∧
      object.routines.map (fun routine => (routine.name, routine.arity)) = [("g", 2), ("f", 1)] ∧
      object.routines.map (·.instructions.countP (·.mnemonic = .callq)) = [0, 2] ∧
      object.routines.map (fun routine => routine.instructions.flatMap fun instruction =>
        instruction.operands.filterMap Operand.symbol?) =
          [["k"], ["_c_const_f_1", "_c_const_f_2", "k"]] ∧
      List.Forall₂ (fun function routine => routine.name = function.name ∧
        routine.Resolved program object function (Frame.ofFunction env function))
          program.functions object.routines := by
  -- One run lists the symbols and counts the calls.
  obtain ⟨program, env, parsed, accepted, given⟩ := Program.exists_of_verdict? "calls.dbl"
    ("k = 2; fun g(a, b) \x7b return a - b * k; \x7d " ++
      "fun f(x) \x7b v = 5; u = g(x, 3); return g(u + 1, k); \x7d")
    (fun program : Program Span => program.check.toOption.any fun env : Environment =>
      (Object.ofProgram env program).toOption.any fun object : Object => decide (
        object.routines.map (fun routine => (routine.name, routine.arity)) = [("g", 2), ("f", 1)] ∧
        object.routines.map (·.instructions.countP (·.mnemonic = .callq)) = [0, 2] ∧
        object.routines.map (fun routine => routine.instructions.flatMap fun instruction =>
          instruction.operands.filterMap Operand.symbol?) =
            [["k"], ["_c_const_f_1", "_c_const_f_2", "k"]]))
    true (by decide +kernel)
  obtain ⟨object, made, resolved⟩ :=
    Object.code_names_resolved (Program.identified_of_parse parsed) accepted
  simp only [accepted, made, Except.toOption, Option.any_some, decide_eq_true_eq] at given
  obtain ⟨arities, calls, symbols⟩ := given
  exact ⟨program, env, object, parsed, accepted, made, arities, calls, symbols, resolved⟩

end DoubleLang
