import DoubleLang.Proofs.Object.Data
import DoubleLang.Proofs.Program.Words

/-!
The pools of a compiled program, and the code that loads from them.

Every number written in the body of a function has an entry in its pool, by its place among them.
Statements without code are passed over, but their numbers are counted: the code loads the entries
of the numbers in the other statements, one after another.
-/

namespace DoubleLang

/-- The texts of the numbers among words. -/
def Word.numbers (words : List Word) : List String :=
  words.filterMap fun word => if word.1 = .number then some word.2 else none

/-- The numbers written in the body of a function. -/
def Function.numbers {α : Type} (function : Function α) : List String :=
  Word.numbers (function.body.flatMap Statement.words)

/-- The numbers of marked statements, each with its place among those of all statements. -/
def Statement.markedNumbers {α : Type} (start : Nat) (statements : List (Statement α × Bool)) :
    List (String × Nat) :=
  -- Numbers are counted before any of them is left out.
  let numbers := statements.flatMap fun (statement, marked) =>
    (Word.numbers statement.words).map fun text => (text, marked)
  ((numbers.zipIdx start).filter fun ((_, marked), _) => marked).map
    fun ((text, _), number) => (text, number)

/-- The numbers of the statements that have code: those that are live, and return or assign to a
name that is read. -/
def Function.codedNumbers {α : Type} (frame : Frame) (function : Function α) :
    List (String × Nat) :=
  Statement.markedNumbers 0 (function.body.zipIdx.map fun (statement, index) =>
    (statement, decide (index < function.live.length) && Emission.hasCode frame statement))

/-- The symbol that an operand names. -/
def Operand.symbol? : Operand → Option String
  | .memory _ (.symbol name) => some name
  | _ => none

/-- The piece of a pool among data that an operand names. -/
def Operand.pooled? (data : List Datum) (operand : Operand) : Option Datum :=
  operand.symbol?.bind fun name =>
    data.find? fun datum => datum.name == name && datum.origin != .constant

/-- The pieces of pools that an instruction names, each beside the instruction. -/
def Instruction.poolUses (data : List Datum) (instruction : Instruction) :
    List (Instruction × Datum) :=
  (instruction.operands.filterMap (·.pooled? data)).map fun datum => (instruction, datum)

/-- The load of a number of a function, beside the entry of the pool that it loads. -/
def Emission.poolLoad (function : String) : String × Nat → Instruction × Datum
  | (text, number) =>
    (load (symbol (PoolName.entry function number)),
      ⟨PoolName.entry function number, text, .pool function⟩)

section Numbers

variable {α : Type}

/-- No words, no numbers. -/
@[simp] theorem Word.numbers_nil : Word.numbers [] = [] := rfl

/-- Words in two parts have the numbers of both. -/
@[simp] theorem Word.numbers_append (first second : List Word) :
    Word.numbers (first ++ second) = Word.numbers first ++ Word.numbers second :=
  List.filterMap_append

/-- A number counts. -/
@[simp] theorem Word.numbers_cons_number (text : String) (rest : List Word) :
    Word.numbers ((.number, text) :: rest) = text :: Word.numbers rest := by
  simp [Word.numbers]

/-- A word of another kind is left out. -/
@[simp] theorem Word.numbers_cons_of_ne {kind : Token.Kind} (text : String) (rest : List Word)
    (other : kind ≠ .number := by decide) :
    Word.numbers ((kind, text) :: rest) = Word.numbers rest := by
  simp [Word.numbers, other]

/-- A mark is left out. -/
@[simp] theorem Word.numbers_cons_mark (text : String) (rest : List Word) :
    Word.numbers (.mark text :: rest) = Word.numbers rest :=
  Word.numbers_cons_of_ne text rest

mutual

/-- The numbers written in an expression are its literals. -/
theorem Expr.numbers_words : ∀ expr : Expr α, Word.numbers expr.words = expr.literals
  | .literal _ _ => rfl
  | .name _ _ => rfl
  | .binary _ _ left right => by
    simp [Expr.words, Expr.literals, numbers_words left, numbers_words right]
  | .call _ _ args => by
    simp [Expr.words, Expr.literals, numbers_wordsOfEach args]
  | .group _ inner => by
    simp [Expr.words, Expr.literals, numbers_words inner]

/-- The numbers written in expressions with commas between them are their literals. -/
private theorem Expr.numbers_wordsOfEach : ∀ args : List (Expr α),
    Word.numbers ([Word.mark ","].intercalate (Expr.wordsOfEach args)) = Expr.literalsOfAll args
  | [] => rfl
  | [arg] => by
    simp [Expr.wordsOfEach, Expr.literalsOfAll, numbers_words arg]
  | arg :: next :: rest => by
    have later := numbers_wordsOfEach (next :: rest)
    simp only [Expr.wordsOfEach] at later
    simp [Expr.wordsOfEach, List.intercalate_cons_cons, later, numbers_words arg,
      Expr.literalsOfAll]

end

/-- The numbers among the words of a statement are the literals of its expression. -/
theorem Statement.numbers_words (statement : Statement α) :
    Word.numbers statement.words = statement.value.literals := by
  -- All other words of a statement are names and marks.
  cases statement with
  | assign note target value =>
    simp [Statement.words, Statement.value, Expr.numbers_words]
  | returns note value =>
    simp [Statement.words, Statement.value, Expr.numbers_words]

/-- The numbers written in a function are its literals. -/
private theorem Function.numbers_eq (function : Function α) :
    function.numbers = function.literals := by
  -- Statement by statement, in the order of the body.
  unfold Function.numbers Function.literals
  induction function.body with
  | nil => rfl
  | cons statement rest ih => simp [Statement.numbers_words, ih]

/-- The first statement takes the first places, and its numbers are left out if it is not marked. -/
private theorem Statement.markedNumbers_cons (start : Nat) (statement : Statement α) (marked : Bool)
    (rest : List (Statement α × Bool)) :
    markedNumbers start ((statement, marked) :: rest) =
      (if marked then statement.value.literals.zipIdx start else []) ++
        markedNumbers (start + statement.value.literalCount) rest := by
  -- Places are counted over all numbers, and marks are looked at afterwards.
  simp only [markedNumbers, List.flatMap_cons, List.zipIdx_append, List.filter_append,
    List.map_append, List.length_map, Statement.numbers_words, Expr.length_literals]
  congr 1
  -- All numbers of one statement have its mark.
  rw [List.zipIdx_map, List.filter_map]
  cases marked <;> simp [Function.comp_def]

/-- Statements without marks have no marked numbers. -/
private theorem Statement.markedNumbers_unmarked (start : Nat) (statements : List (Statement α)) :
    markedNumbers start (statements.map fun statement => (statement, false)) = [] := by
  -- Without a mark a statement only moves the places.
  induction statements generalizing start with
  | nil => rfl
  | cons statement rest ih => simp [markedNumbers_cons, ih]

/-- What stands behind marked statements without a mark adds nothing. -/
private theorem Statement.markedNumbers_append_unmarked (start : Nat)
    (front : List (Statement α × Bool))
    (dead : List (Statement α)) :
    markedNumbers start (front ++ dead.map fun statement => (statement, false)) =
      markedNumbers start front := by
  -- The front is taken off statement by statement, until only unmarked ones are left.
  induction front generalizing start with
  | nil => exact markedNumbers_unmarked start dead
  | cons first rest ih => rw [List.cons_append, markedNumbers_cons, ih, markedNumbers_cons]

/-- Items made with their places are made without them, where the places make no difference. -/
private theorem map_zipIdx_of_agrees {β γ : Type} {items : List β} {start : Nat}
    {placed : β × Nat → γ}
    {make : β → γ} (agrees : ∀ item ∈ items.zipIdx start, placed item = make item.1) :
    (items.zipIdx start).map placed = items.map make := by
  rw [List.map_congr_left agrees, ← Function.comp_def make, ← List.map_map, List.zipIdx_map_fst]

/-- The numbers with code are found among the live statements. -/
private theorem Function.codedNumbers_eq (frame : Frame) (function : Function α) :
    function.codedNumbers frame =
      Statement.markedNumbers 0 (function.live.map fun statement =>
        (statement, Emission.hasCode frame statement)) := by
  -- The body is the live statements, and then those that are never reached.
  obtain ⟨dead, split⟩ := function.live_append
  -- The live statements have the first places, and all others come behind them.
  have marks : function.body.zipIdx.map (fun (statement, index) =>
      (statement, decide (index < function.live.length) && Emission.hasCode frame statement)) =
        (function.live.map fun statement => (statement, Emission.hasCode frame statement)) ++
          dead.map fun statement => (statement, false) := by
    rw [split, List.zipIdx_append, List.map_append, map_zipIdx_of_agrees fun item member => ?_,
      map_zipIdx_of_agrees fun item member => ?_]
    · have late := (List.mem_zipIdx member).1
      simp only [Nat.zero_add] at late
      simp [Nat.not_lt.mpr late]
    · have early := (List.mem_zipIdx member).2.1
      simp only [Nat.zero_add] at early
      simp [early]
  rw [Function.codedNumbers, marks, Statement.markedNumbers_append_unmarked]

end Numbers

namespace Emission

variable {α : Type} {data : List Datum} {function : String} {frame : Frame}

/-- Numbers at their places are found among data as entries of the pool of a function. -/
def Pools (data : List Datum) (function : String) (numbers : List (String × Nat)) : Prop :=
  ∀ item ∈ numbers, (symbol (PoolName.entry function item.2)).pooled? data =
    some (poolLoad function item).2

/-- The code of an expression asks no pool for its names. -/
def NamesApart (data : List Datum) (frame : Frame) (names : List String) : Prop :=
  ∀ name ∈ names, (place frame name).pooled? data = none

/-- Literals in two parts are found in the pool if those of both are. -/
private theorem pools_append {first second : List (String × Nat)} :
    Pools data function (first ++ second) ↔
      Pools data function first ∧ Pools data function second :=
  List.forall_mem_append

/-- Names in two parts are apart from the pool if those of both are. -/
private theorem namesApart_append {first second : List String} :
    NamesApart data frame (first ++ second) ↔
      NamesApart data frame first ∧ NamesApart data frame second :=
  List.forall_mem_append

/-- A load uses what its source names. -/
private theorem poolUses_load (source : Operand) :
    (load source).poolUses data =
      (source.pooled? data).toList.map fun datum => (load source, datum) := by
  cases found : source.pooled? data <;> simp [Instruction.poolUses, load, found] <;> rfl

/-- Code whose operands name no symbols uses no pool. -/
private theorem poolUses_plain {code : List Instruction}
    (plain : ∀ instruction ∈ code, ∀ operand ∈ instruction.operands, operand.symbol? = none) :
    code.flatMap (Instruction.poolUses data) = [] := by
  -- An operand is looked up in the data by its symbol.
  rw [List.flatMap_eq_nil_iff]
  intro instruction member
  rw [Instruction.poolUses, List.map_eq_nil_iff, List.filterMap_eq_nil_iff]
  intro operand named
  simp [Operand.pooled?, plain instruction member operand named]

/-- Keeping a value on the stack uses no pool. -/
private theorem poolUses_spill : spill.flatMap (Instruction.poolUses data) = [] :=
  poolUses_plain (by simp [spill, Operand.symbol?, rsp, double, stackCell])

/-- Combining two values uses no pool. -/
private theorem poolUses_combine (op : BinaryOp) :
    (combine op).flatMap (Instruction.poolUses data) = [] :=
  poolUses_plain (by simp [combine, load, Operand.symbol?, rsp, double, stackCell])

/-- Calling a function uses no pool. -/
private theorem poolUses_call (callee : String) (count : Nat) :
    (call callee count).flatMap (Instruction.poolUses data) = [] := by
  -- Arguments come from the stack, and the function is a label.
  refine poolUses_plain fun instruction member => ?_
  simp only [call, List.mem_append, List.mem_map, List.mem_singleton] at member
  rcases member with (⟨register, -, rfl⟩ | rfl) | dropped
  · simp [Operand.symbol?, double, stackCell]
  · simp [Operand.symbol?]
  · split at dropped
    · simp at dropped
    · rw [List.mem_singleton.mp dropped]
      simp [Operand.symbol?, rsp]

/-- Entering a function uses no pool. -/
private theorem poolUses_opening (frame : Frame) :
    (opening frame).flatMap (Instruction.poolUses data) = [] := by
  -- Parameters go from registers to the frame.
  refine poolUses_plain ?_
  unfold opening
  split <;> simp [or_imp, forall_and, Operand.symbol?, rsp, rbp, double, frameCell]

/-- Leaving a function uses no pool. -/
private theorem poolUses_closing : closing.flatMap (Instruction.poolUses data) = [] :=
  poolUses_plain (by simp [closing])

mutual

/-- The code of an expression loads the entries of its literals in turn, and no other ones. -/
private theorem poolUses_expr : ∀ (number : Nat) (tree : Expr α),
    Pools data function (tree.literals.zipIdx number) → NamesApart data frame tree.names →
      (expr function frame number tree).flatMap (Instruction.poolUses data) =
        (tree.literals.zipIdx number).map (poolLoad function)
  | number, .literal _ text, pooled, _ => by
    have found := pooled (text, number) (by simp [Expr.literals])
    simp only at found
    simp [expr, Expr.literals, poolUses_load, found, poolLoad]
  | number, .name _ read, _, apart => by
    simp [expr, Expr.literals, poolUses_load, apart read (by simp [Expr.names])]
  | number, .binary _ op left right, pooled, apart => by
    -- Neither putting the left value aside nor the operation itself loads a pooled literal.
    rw [Expr.literals, List.zipIdx_append, pools_append, Expr.length_literals] at pooled
    rw [Expr.names, namesApart_append] at apart
    rw [expr, List.flatMap_append, List.flatMap_append, List.flatMap_append, poolUses_spill,
      poolUses_combine, poolUses_expr number left pooled.1 apart.1,
      poolUses_expr _ right pooled.2 apart.2, Expr.literals, List.zipIdx_append, List.map_append,
      Expr.length_literals, List.nil_append, List.append_nil]
  | number, .call _ callee args, pooled, apart => by
    rw [expr, List.flatMap_append, poolUses_call, List.append_nil,
      poolUses_spilled number args pooled apart, Expr.literals]
  | number, .group _ inner, pooled, apart => by
    rw [expr, poolUses_expr number inner pooled apart, Expr.literals]

/-- The code of arguments loads the entries of their literals in turn. -/
private theorem poolUses_spilled : ∀ (number : Nat) (args : List (Expr α)),
    Pools data function ((Expr.literalsOfAll args).zipIdx number) →
      NamesApart data frame (Expr.namesOfAll args) →
      (spilled function frame number args).flatMap (Instruction.poolUses data) =
        ((Expr.literalsOfAll args).zipIdx number).map (poolLoad function)
  | _, [], _, _ => rfl
  | number, arg :: rest, pooled, apart => by
    rw [Expr.literalsOfAll, List.zipIdx_append, pools_append, Expr.length_literals] at pooled
    rw [Expr.namesOfAll, namesApart_append] at apart
    rw [spilled, List.flatMap_append, List.flatMap_append, poolUses_spill, List.nil_append,
      poolUses_expr number arg pooled.1 apart.1, poolUses_spilled _ rest pooled.2 apart.2,
      Expr.literalsOfAll, List.zipIdx_append, List.map_append, Expr.length_literals]

end

/-- The code of a statement asks no pool for its names, its target among them. -/
def StatementApart (data : List Datum) (frame : Frame) (tree : Statement α) : Prop :=
  NamesApart data frame (tree.value.names ++ tree.target?.toList)

/-- The code of a statement loads the entries of its literals. -/
private theorem poolUses_statement (number : Nat) (tree : Statement α)
    (pooled : Pools data function (tree.value.literals.zipIdx number))
    (apart : StatementApart data frame tree) :
    (statement function frame number tree).flatMap (Instruction.poolUses data) =
      (tree.value.literals.zipIdx number).map (poolLoad function) := by
  -- What holds of the names of the statement holds of those of its expression.
  have names := (namesApart_append.mp apart).1
  cases tree with
  | returns note value => exact poolUses_expr number value pooled names
  | assign note target value =>
    -- Storing the value behind the expression names the target only.
    have stored : (store (place frame target)).poolUses data = [] := by
      have found := apart target (by simp [Statement.target?])
      simp [store, Instruction.poolUses, found]
      rfl
    rw [statement, List.flatMap_append, poolUses_expr number value pooled names]
    simp [stored, Statement.value]

/-- The code of live statements loads the entries of the numbers in those that have code. -/
private theorem poolUses_statements (number : Nat) (live : List (Statement α))
    (pooled : Pools data function ((live.flatMap (·.value.literals)).zipIdx number))
    (apart : ∀ tree ∈ live, hasCode frame tree = true → StatementApart data frame tree) :
    (statements function frame number live).flatMap (Instruction.poolUses data) =
      (Statement.markedNumbers number (live.map fun tree => (tree, hasCode frame tree))).map
        (poolLoad function) := by
  -- A statement without code takes its places all the same.
  induction live generalizing number with
  | nil => rfl
  | cons first rest ih =>
    rw [List.flatMap_cons, List.zipIdx_append, pools_append, Expr.length_literals] at pooled
    have later := ih (number + first.value.literalCount) pooled.2
      fun tree member => apart tree (by simp [member])
    rw [statements, List.flatMap_append, later, List.map_cons, Statement.markedNumbers_cons,
      List.map_append]
    congr 1
    split
    · rename_i coded
      exact poolUses_statement number first pooled.1 (apart first (by simp) coded)
    · rfl

end Emission

namespace Object.Compiles

variable {env : Environment} {program : Program Span} {object : Object} {function : Function Span}

/-- What is found under the name of a datum is the datum, if it belongs to a pool. -/
private theorem pooled?_eq (compiles : object.Compiles env program) {datum : Datum}
    (member : datum ∈ object.data) :
    (Emission.symbol datum.name).pooled? object.data =
      if datum.origin = .constant then none else some datum := by
  -- No other datum has the name.
  have only {other : Datum} (listed : other ∈ object.data) (named : other.name = datum.name) :
      other = datum := List.inj_on_of_nodup_map compiles.distinct listed member named
  simp only [Emission.symbol, Operand.pooled?, Operand.symbol?, Option.bind_some]
  split
  · rename_i constant
    -- A constant has its name alone, so that no pooled literal can be found by it.
    rw [List.find?_eq_none]
    intro other listed
    simp only [Bool.and_eq_true, beq_iff_eq, bne_iff_ne, not_and, not_not]
    intro named
    rw [only listed named, constant]
  · rename_i pooled
    obtain ⟨other, found⟩ : ∃ other, object.data.find? (fun other =>
        other.name == datum.name && other.origin != .constant) = some other := by
      rw [← Option.isSome_iff_exists, List.find?_isSome]
      exact ⟨datum, member, by simp [pooled]⟩
    have named : other.name = datum.name := by
      have kept := List.find?_some found
      simp only [Bool.and_eq_true, beq_iff_eq] at kept
      exact kept.1
    rw [found, only (List.mem_of_find?_eq_some found) named]

/-- The literals of a function are found in its pool, each by its place. -/
theorem pools (compiles : object.Compiles env program) (member : function ∈ program.functions) :
    Emission.Pools object.data function.name (function.literals.zipIdx) := by
  -- Each literal has its entry in the pool of the function, and that is part of the data.
  intro item listed
  have entry : (Emission.poolLoad function.name item).2 ∈ object.data :=
    (compiles.data _).mpr (List.mem_append_right _ (List.mem_flatMap.mpr
      ⟨function, member, List.mem_map.mpr ⟨item, listed, rfl⟩⟩))
  simpa [Emission.poolLoad] using compiles.pooled?_eq entry

/-- The name of a constant is not found in any pool. -/
private theorem pooled?_constant (compiles : object.Compiles env program) {name : String}
    (constant : name ∈ env.constants.names) :
    (Emission.symbol name).pooled? object.data = none := by
  -- The name belongs to a constant, and names are used once in the data.
  obtain ⟨⟨named, value⟩, listed, rfl⟩ := List.mem_map.mp constant
  have entry : Datum.mk named value .constant ∈ object.data :=
    (compiles.data _).mpr (List.mem_append_left _ (List.mem_map.mpr ⟨_, listed, rfl⟩))
  simpa using compiles.pooled?_eq entry

/-- The code of a function finds the names of its statements in the frame or among the constants. -/
private theorem statementApart (compiles : object.Compiles env program)
    (member : function ∈ program.functions) {tree : Statement Span} (live : tree ∈ function.live)
    (coded : Emission.hasCode (Frame.ofFunction env function) tree = true) :
    Emission.StatementApart object.data (Frame.ofFunction env function) tree := by
  -- In a checked program a name has a slot, or it is that of a constant.
  intro name asked
  rcases (compiles.checked.functions function member).place_cases live coded asked with
    ⟨offset, inside⟩ | ⟨data, constant⟩
  · rw [inside]
    rfl
  · rw [data]
    exact compiles.pooled?_constant constant

/-- The code of a function loads the entries of the numbers in its statements with code, in turn. -/
private theorem poolUses_compiled (compiles : object.Compiles env program)
    (member : function ∈ program.functions) :
    (Emission.compiled env function).instructions.flatMap (Instruction.poolUses object.data) =
      (function.codedNumbers (Frame.ofFunction env function)).map
        (Emission.poolLoad function.name) := by
  -- The literals of the live statements stand at the front of all literals.
  obtain ⟨dead, split⟩ := function.live_append
  have pooled := compiles.pools member
  rw [Function.literals, split, List.flatMap_append, List.zipIdx_append,
    Emission.pools_append] at pooled
  rw [Function.codedNumbers_eq, Emission.compiled, List.flatMap_append, List.flatMap_append,
    Emission.poolUses_opening, Emission.poolUses_closing, List.nil_append, List.append_nil]
  exact Emission.poolUses_statements 0 function.live pooled.1
    fun tree live coded => compiles.statementApart member live coded

end Object.Compiles

/-- The data of a program in order are strictly increasing by name: one piece for each constant and
one for each number written in a function, at its place among them. The code of a function loads the
entries of the numbers written in its statements with code, in their order, and names no other. -/
theorem Object.data_and_pool_loads_exact {program : Program Span} {env : Environment}
    (identified : program.Identified) (accepted : program.check = .ok env) :
    ∃ object, Object.ofProgram env program = .ok object ∧
      Datum.Increasing object.data ∧
      (∀ datum, datum ∈ object.data ↔
        (∃ constant ∈ program.constants, datum = ⟨constant.name, constant.value, .constant⟩) ∨
        ∃ function ∈ program.functions, ∃ (number : Nat) (text : String),
          function.numbers[number]? = some text ∧
            datum = ⟨PoolName.entry function.name number, text, .pool function.name⟩) ∧
      List.Forall₂ (fun function routine => routine.name = function.name ∧
        routine.instructions.flatMap (Instruction.poolUses object.data) =
          (function.codedNumbers (Frame.ofFunction env function)).map
            (Emission.poolLoad function.name)) program.functions object.routines := by
  -- Accepted programs compile, and their data have distinct names.
  obtain ⟨object, made, compiles⟩ := Object.exists_compiles identified accepted
  refine ⟨object, made, Object.data_increasing made compiles.distinct, ?_, ?_⟩
  · intro datum
    rw [compiles.data, List.mem_append]
    -- Constants come from the environment, entries from the pools.
    refine or_congr ?_ ?_
    · simp [Emission.constants, compiles.checked.constants, eq_comm]
    · simp only [List.mem_flatMap, Emission.pool, List.mem_map, Prod.exists,
        List.mem_zipIdx_iff_getElem?, Function.numbers_eq]
      refine exists_congr fun function => and_congr_right fun _ => ?_
      rw [exists_comm]
      simp only [eq_comm]
  · rw [compiles.routines, List.forall₂_map_right_iff, List.forall₂_same]
    exact fun function member => ⟨rfl, compiles.poolUses_compiled member⟩

/-- Numbers of a statement that nothing reads and of one behind the return are in the pool, and are
not loaded. -/
theorem Object.data_and_pool_loads_of_skipped : ∃ program env object routine,
    Program.parse "skip.dbl"
      "k = 2; fun f(x) \x7b u = 1; y = x * 3; return y + 4 - k; z = 5; \x7d" = .ok program ∧
      program.check = .ok env ∧ Object.ofProgram env program = .ok object ∧
      ⟨"k", "2", .constant⟩ ∈ object.data ∧ ⟨"_c_const_f_0", "1", .pool "f"⟩ ∈ object.data ∧
      ⟨"_c_const_f_3", "5", .pool "f"⟩ ∈ object.data ∧ object.routines = [routine] ∧
      routine.instructions.flatMap (Instruction.poolUses object.data) =
        [("3", 1), ("4", 2)].map (Emission.poolLoad "f") := by
  -- One run gives the numbers as written and those that have code.
  obtain ⟨program, env, parsed, accepted, given⟩ := Program.exists_of_verdict? "skip.dbl"
    "k = 2; fun f(x) \x7b u = 1; y = x * 3; return y + 4 - k; z = 5; \x7d"
    (fun program => decide (
      program.constants.map (fun constant => (constant.name, constant.value)) = [("k", "2")] ∧
      program.functions.map (fun function => (function.name, function.numbers)) =
        [("f", ["1", "3", "4", "5"])] ∧
      program.check.toOption.map (fun env => program.functions.map fun function =>
        function.codedNumbers (Frame.ofFunction env function)) = some [[("3", 1), ("4", 2)]]))
    true (by decide +kernel)
  obtain ⟨object, made, -, data, loads⟩ :=
    Object.data_and_pool_loads_exact (Program.identified_of_parse parsed) accepted
  obtain ⟨constants, functions, coded⟩ := of_decide_eq_true given
  obtain ⟨constant, constants, valued⟩ := List.map_eq_singleton_iff.mp constants
  obtain ⟨function, functions, numbered⟩ := List.map_eq_singleton_iff.mp functions
  rw [Prod.mk.injEq] at valued numbered
  simp only [accepted, functions, Except.toOption, Option.map_some, List.map_cons, List.map_nil,
    Option.some.injEq, List.cons.injEq, and_true] at coded
  -- There is one function, so there is one routine.
  simp only [functions, List.forall₂_cons_left_iff, List.forall₂_nil_left_iff] at loads
  obtain ⟨routine, rest, ⟨-, uses⟩, rfl, routines⟩ := loads
  rw [coded, numbered.1] at uses
  have entry (number : Nat) (text : String) (there : function.numbers[number]? = some text) :
      ⟨PoolName.entry "f" number, text, .pool "f"⟩ ∈ object.data :=
    (data _).mpr (.inr ⟨function, by simp [functions], number, text, there, by rw [numbered.1]⟩)
  exact ⟨program, env, object, routine, parsed, accepted, made,
    (data _).mpr (.inl ⟨constant, by simp [constants], by rw [valued.1, valued.2]⟩),
    entry 0 "1" (by simp [numbered.2]), entry 3 "5" (by simp [numbered.2]), routines, uses⟩

end DoubleLang
