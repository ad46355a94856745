import DoubleLang.Proofs.Object.Emission
import DoubleLang.Proofs.Object.Routine
import DoubleLang.Proofs.Program.Parsed

/-!
Compiled programs compute what their functions return.

A function is entered by calls of any depth. What holds for calls up to a depth carries over to
functions that make them, so it holds for every depth.
-/

namespace DoubleLang

variable {D : Type}

namespace Object

/-- Where names are distinct, each datum is found under its name. -/
private theorem datum?_of_mem {object : Object} (distinct : (object.data.map (·.name)).Nodup)
    {datum : Datum} (member : datum ∈ object.data) :
    object.datum? datum.name = some datum.value := by
  -- Something of that name is found.
  obtain ⟨other, found⟩ : ∃ other, object.data.find? (·.name == datum.name) = some other := by
    rw [← Option.isSome_iff_exists, List.find?_isSome]
    exact ⟨datum, member, by simp⟩
  -- What is found has the same name, so it is the datum itself.
  have named : other.name = datum.name := by simpa using List.find?_some found
  have same := List.inj_on_of_nodup_map distinct (List.mem_of_find?_eq_some found) member named
  rw [datum?, found, same]
  rfl

/-- The code of a function stands at its start. -/
private theorem hasCode_of_routine? {object : Object} {name : String} {routine : Routine}
    (found : object.routine? name = some routine) :
    object.HasCode ⟨name, 0⟩ routine.instructions := by
  -- Places are counted from the first instruction.
  intro offset instruction there
  simp [instruction?, Place.skip, found, there]

end Object

/-- What the code of a function in order asks of its frame is there. -/
theorem Function.Checked.covers {env : Environment} {function : Function Span}
    (checked : function.Checked env.toGlobals (env.scope function.name)) {used : Nat}
    (serves : Frame.Serves function (Frame.ofFunction env function) used) :
    Covers (Frame.ofFunction env function) (env.scope function.name) function.live := by
  -- The reads of a frame are closed under the live assignments.
  obtain ⟨dead, split⟩ := function.live_append
  constructor
  · exact fun statement member coded name => Frame.mem_reads_of_hasCode member coded
  · intro target member
    refine ⟨(checked.in_scope target).mpr (.inr ?_), serves.targets target member⟩
    rw [split, Statement.targets_append]
    exact List.mem_append_left _ member

/-- A name in a live statement with code is found in a slot, or it is that of a constant. -/
theorem Function.Checked.place_cases {env : Environment} {function : Function Span}
    (checked : function.Checked env.toGlobals (env.scope function.name)) {tree : Statement Span}
    (live : tree ∈ function.live)
    (coded : Emission.hasCode (Frame.ofFunction env function) tree = true) {name : String}
    (member : name ∈ tree.value.names ++ tree.target?.toList) :
    (∃ offset, Emission.place (Frame.ofFunction env function) name = Emission.frameCell offset) ∨
      (Emission.place (Frame.ofFunction env function) name = Emission.symbol name ∧
        name ∈ env.constants.names) := by
  -- A name is read in the expression, or it is the target.
  rcases List.mem_append.mp member with asked | assigned
  · obtain ⟨before, after, split⟩ := List.append_of_mem live
    rcases checked.read_or_constant split coded asked with ⟨read, -⟩ | ⟨unread, constant⟩
    · obtain ⟨offset, found⟩ := checked.exists_slot live coded asked read
      exact .inl ⟨offset, Emission.place_of_mem read found⟩
    · exact .inr ⟨Emission.place_of_not_mem unread, constant⟩
  · -- The target of an assignment with code is read, so it has a slot.
    obtain ⟨used, serves⟩ := Frame.ofFunction_serves env checked.params_distinct
    cases tree with
    | returns note value => cases assigned
    | assign note target value =>
      rw [List.mem_singleton.mp assigned]
      have read : target ∈ (Frame.ofFunction env function).reads := by
        simpa [Emission.hasCode] using coded
      obtain ⟨offset, found⟩ := Option.isSome_iff_exists.mp
        (serves.targets target (List.mem_filterMap.mpr ⟨_, live, rfl⟩) read)
      exact .inl ⟨offset, Emission.place_of_mem read found⟩

section Program

variable {env : Environment} {program : Program Span} {object : Object}

/-- The compiled form of a program: its functions in order, and its data under distinct names. -/
structure Object.Compiles (env : Environment) (program : Program Span) (object : Object) :
    Prop where
  checked : program.Checked env
  routines : object.routines = program.functions.map (Emission.compiled env)
  data : ∀ datum, datum ∈ object.data ↔
    datum ∈ Emission.constants env ++ program.functions.flatMap Emission.pool
  distinct : (object.data.map (·.name)).Nodup

/-- The value of a constant is that of its datum. -/
theorem Object.Compiles.constants (compiles : object.Compiles env program)
    (arithmetic : Arithmetic D) {name : String} {value : D}
    (found : program.constant? arithmetic name = some value) :
    (object.datum? name).map arithmetic.read = some value := by
  -- The constant that is found is listed in the environment, and from there among the data.
  obtain ⟨constant, there, rfl⟩ := Option.map_eq_some_iff.mp found
  have named : constant.name = name := by simpa using List.find?_some there
  -- The environment lists constants as the program does.
  have listed : (constant.name, constant.value) ∈ env.constants.entries := by
    rw [compiles.checked.constants]
    exact List.mem_map.mpr ⟨constant, List.mem_of_find?_eq_some there, rfl⟩
  have datum := Object.datum?_of_mem compiles.distinct ((compiles.data _).mpr
    (List.mem_append_left _ (List.mem_map.mpr ⟨_, listed, rfl⟩)))
  simp only [named] at datum
  simp [datum]

/-- The literals of a function are in its pool. -/
theorem Object.Compiles.pooled (compiles : object.Compiles env program) {function : Function Span}
    (member : function ∈ program.functions) :
    Pooled object function.name 0 (function.live.flatMap (·.value.literals)) := by
  -- The literals of the live statements stand at the front of all literals.
  have whole : Pooled object function.name 0 function.literals := by
    intro number text there
    have pooled : ⟨PoolName.entry function.name number, text, .pool function.name⟩ ∈
        Emission.pool function :=
      List.mem_map.mpr ⟨(text, number), List.mem_zipIdx_iff_getElem?.mpr there, rfl⟩
    have datum := Object.datum?_of_mem compiles.distinct ((compiles.data _).mpr
      (List.mem_append_right _ (List.mem_flatMap.mpr ⟨function, member, pooled⟩)))
    rwa [Nat.zero_add]
  -- Statements behind the first return have literals too, but no code.
  obtain ⟨dead, split⟩ := function.live_append
  rw [Function.literals, split, List.flatMap_append] at whole
  exact (pooled_append whole).1

/-- No name that a frame takes as read has the value of a constant. -/
theorem Object.Compiles.own (compiles : object.Compiles env program) (arithmetic : Arithmetic D)
    {function : Function Span} (member : function ∈ program.functions) {name : String}
    (read : name ∈ (Frame.ofFunction env function).reads) :
    program.constant? arithmetic name = none := by
  -- A constant with that name would be a constant of the environment.
  have apart := (compiles.checked.functions function member).reads_own read
  rw [Program.constant?, Option.map_eq_none_iff, List.find?_eq_none]
  intro constant listed same
  refine apart ?_
  rw [compiles.checked.names_constants]
  exact List.mem_map.mpr ⟨constant, listed, by simpa using same⟩

/-- A function whose calls are found delivers its own result. -/
theorem Object.Compiles.delivers (compiles : object.Compiles env program)
    {arithmetic : Arithmetic D} {call? : String → List D → Option D}
    (linked : Linked object ⟨arithmetic, program.constant? arithmetic, call?⟩)
    {function : Function Span} {args : List D} {value : D}
    (member : program.functions.find? (·.name == function.name) = some function)
    (found : function.result? ⟨arithmetic, program.constant? arithmetic, call?⟩ args = some value) :
    Delivers object arithmetic function.name args value := by
  -- The function has its frame, its pool and its code in the object.
  have listed := List.mem_of_find?_eq_some member
  have checked := compiles.checked.functions function listed
  obtain ⟨used, serves⟩ := Frame.ofFunction_serves env checked.params_distinct
  -- Names of functions are looked up in the same order in program and object.
  have routine : object.routine? function.name = some (Emission.compiled env function) := by
    rw [Object.routine?, compiles.routines, List.find?_map, Option.map_eq_some_iff]
    exact ⟨function, member, rfl⟩
  refine ⟨by simp [routine], fun machine entered => ?_⟩
  exact function_leaves serves linked (fun name => compiles.own arithmetic listed)
    (checked.covers serves)
    (fun param there => (checked.in_scope param.name).mpr (.inl (List.mem_map_of_mem there)))
    (compiles.pooled listed) (Object.hasCode_of_routine? routine) found entered

/-- Calls of any depth are found in the compiled form. -/
theorem Object.Compiles.linked (compiles : object.Compiles env program)
    (arithmetic : Arithmetic D) (depth : Nat) :
    Linked object ⟨arithmetic, program.constant? arithmetic, program.result? arithmetic depth⟩ := by
  -- A function at one more level of depth only calls functions at the level before.
  induction depth with
  | zero => exact ⟨compiles.constants arithmetic, fun found => by cases found⟩
  | succ depth ih =>
    refine ⟨compiles.constants arithmetic, ?_⟩
    intro name args value found
    obtain ⟨function, there, returned⟩ := Option.bind_eq_some_iff.mp found
    have named : function.name = name := by simpa using List.find?_some there
    subst named
    exact compiles.delivers ih there returned

end Program

/-- A program in order with identifiers for the names of its functions is compiled, and its code
computes what they return: entered with arguments, a function that has a value for them comes to
its return with that value, and with base and stack as they were. -/
theorem Object.compiled_code_returns_results (arithmetic : Arithmetic D) {program : Program Span}
    {env : Environment} (identified : program.Identified) (accepted : program.check = .ok env) :
    ∃ object, Object.ofProgram env program = .ok object ∧
      ∀ function ∈ program.functions, ∀ args value,
        program.Gives arithmetic function.name args value →
        ∀ machine, Entered function.name args machine →
          ∃ after, Leaves object arithmetic function.name args.length value machine after := by
  -- A value is found within some depth, and calls of that depth are found in the object.
  have checked := Program.checked_of_check accepted
  obtain ⟨object, made, routines, data⟩ := Object.ofProgram_eq_ok checked
  -- Sorting moves data around and changes nothing else.
  have compiles : object.Compiles env program :=
    ⟨checked, routines, fun _ => data.mem_iff,
      (data.map _).nodup_iff.mpr (Emission.nodup_names_data checked identified)⟩
  refine ⟨object, made, ?_⟩
  rintro function - args value ⟨depth, found⟩ machine entered
  exact ((compiles.linked arithmetic depth).calls found).leaves machine entered

/-- Doubles that are kept as they are written, with every operation in parentheses. -/
def Arithmetic.written : Arithmetic String :=
  ⟨id, fun left right => "(" ++ left ++ " + " ++ right ++ ")",
    fun left right => "(" ++ left ++ " - " ++ right ++ ")",
    fun left right => "(" ++ left ++ " * " ++ right ++ ")",
    fun left right => "(" ++ left ++ " / " ++ right ++ ")"⟩

/-- A machine at the start of a function with the numbers from one to nine for arguments. -/
def Machine.withNine (name : String) : Machine String where
  place := ⟨name, 0⟩
  base := 64
  top := 0
  doubles := fun register => toString (register.val + 1)
  memory := fun address =>
    if address = 0 then some (.place ⟨"main", 12⟩)
    else if address = 8 then some (.double "9") else none

/-- The ninth argument is the one on the stack. -/
private theorem Machine.withNine_entered (name : String) :
    Entered name ["1", "2", "3", "4", "5", "6", "7", "8", "9"] (Machine.withNine name) := by
  -- Eight arguments are in registers, so only the last one is looked for on the stack.
  refine ⟨rfl, by simp only [withNine]; decide +kernel, ?_, ⟨_, rfl⟩⟩
  intro index argument late found
  obtain ⟨small, rfl⟩ := List.getElem?_eq_some_iff.mp found
  simp only [List.length_cons, List.length_nil] at small
  obtain rfl : index = 8 := by omega
  rfl

/-- A function of nine parameters calls another one, and assigns to the parameter that arrives on
the stack. -/
theorem Object.compiled_code_returns_of_nine : ∃ program env object after,
    Program.parse "nine.dbl"
      ("k = 0.5; fun half(x) \x7b return x * k; \x7d " ++
        "fun f(a, b, c, d, e, g, h, i, j) \x7b u = b; j = half(j) + a; return j - i / 2; \x7d") =
        .ok program ∧
      program.check = .ok env ∧ Object.ofProgram env program = .ok object ∧
      Leaves object .written "f" 9 "(((9 * 0.5) + 1) - (8 / 2))" (.withNine "f") after := by
  -- The evaluation of the source gives the value, and the code returns it.
  obtain ⟨program, env, parsed, accepted, given⟩ := Program.exists_of_verdict? "nine.dbl"
    ("k = 0.5; fun half(x) \x7b return x * k; \x7d " ++
      "fun f(a, b, c, d, e, g, h, i, j) \x7b u = b; j = half(j) + a; return j - i / 2; \x7d")
    (fun program => decide (program.result? .written 2 "f"
      ["1", "2", "3", "4", "5", "6", "7", "8", "9"] = some "(((9 * 0.5) + 1) - (8 / 2))") &&
        program.functions.any (·.name == "f")) true (by decide +kernel)
  simp only [Bool.and_eq_true, decide_eq_true_eq, List.any_eq_true, beq_iff_eq] at given
  obtain ⟨value, function, listed, named⟩ := given
  obtain ⟨object, made, leaves⟩ := Object.compiled_code_returns_results .written
    (Program.identified_of_parse parsed) accepted
  obtain ⟨after, left⟩ := leaves function listed _ _ ⟨2, named ▸ value⟩ _
    (Machine.withNine_entered function.name)
  rw [named] at left
  exact ⟨program, env, object, after, parsed, accepted, made, left⟩

end DoubleLang
