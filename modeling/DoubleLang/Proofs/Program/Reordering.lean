import DoubleLang.Proofs.Program.Offences
import Mathlib.Data.List.Perm.Basic

/-!
Programs whose declarations are put in another order.

The check goes through declarations in their order, but what it asks of each of them is the same in
any order: that its name is no other's, and which names the program has as a whole.
-/

namespace DoubleLang

/-- Where names are distinct, a search by name finds the one that has it. -/
theorem find?_name_iff {α : Type} {name : α → String} {items : List α}
    (distinct : (items.map name).Nodup) {wanted : String} {item : α} :
    items.find? (name · == wanted) = some item ↔ item ∈ items ∧ name item = wanted := by
  -- A search by name finds something if anything has the name.
  constructor
  · intro found
    exact ⟨List.mem_of_find?_eq_some found, by simpa using List.find?_some found⟩
  · rintro ⟨member, rfl⟩
    obtain ⟨other, found⟩ : ∃ other, items.find? (name · == name item) = some other := by
      rw [← Option.isSome_iff_exists, List.find?_isSome]
      exact ⟨item, member, by simp⟩
    -- What is found has the same name, so it is the item itself.
    have named : name other = name item := by simpa using List.find?_some found
    rw [found, List.inj_on_of_nodup_map distinct (List.mem_of_find?_eq_some found) member named]

namespace Offence

/-- A rule that finds nothing in any item finds nothing in each, held against those before it. -/
theorem eq_nil_of_inTurn {α : Type} {rule : List α → α → List Offence} {earlier : List α}
    {before : List α} {item : α} {after : List α}
    (none : inTurn rule earlier (before ++ item :: after) = []) :
    rule (earlier ++ before) item = [] := by
  -- The items in front of it come to those that are held against it.
  induction before generalizing earlier with
  | nil =>
    rw [List.nil_append, inTurn, List.append_eq_nil_iff] at none
    rw [List.append_nil]
    exact none.1
  | cons first rest ih =>
    rw [List.cons_append, inTurn, List.append_eq_nil_iff] at none
    have later := ih none.2
    rwa [List.append_assoc, List.singleton_append] at later

/-- A rule that asks for a name of its own and for something else finds nothing exactly if names are
distinct and every item has the rest. -/
private theorem inTurn_eq_nil_iff {α : Type} {rule : List α → α → List Offence} {name : α → String}
    {Kept : α → Prop}
    (agrees : ∀ earlier item, rule earlier item = [] ↔
      name item ∉ earlier.map name ∧ Kept item) (items : List α) :
    inTurn rule [] items = [] ↔ (items.map name).Nodup ∧ ∀ item ∈ items, Kept item := by
  -- Later names are held against all those before them, the given ones among them.
  have general : ∀ earlier, inTurn rule earlier items = [] ↔
      (∀ item ∈ items, name item ∉ earlier.map name) ∧ (items.map name).Nodup ∧
        ∀ item ∈ items, Kept item := by
    induction items with
    | nil => simp [inTurn]
    | cons item rest ih =>
      intro earlier
      simp only [inTurn, List.append_eq_nil_iff, agrees, ih, List.map_append, List.map_cons,
        List.map_nil, List.mem_append, List.mem_singleton, List.forall_mem_cons, List.nodup_cons,
        not_or]
      constructor
      · rintro ⟨⟨own, kept⟩, apart, distinct, others⟩
        refine ⟨⟨own, fun other member => (apart other member).1⟩, ⟨?_, distinct⟩, kept, others⟩
        intro listed
        obtain ⟨other, member, same⟩ := List.mem_map.mp listed
        exact (apart other member).2 same
      · rintro ⟨⟨own, apart⟩, ⟨single, distinct⟩, kept, others⟩
        refine ⟨⟨own, kept⟩, fun other member => ⟨apart other member, ?_⟩, distinct, others⟩
        intro same
        exact single (List.mem_map.mpr ⟨other, member, same⟩)
  simpa using general []

end Offence

/-- Programs that declare the same names, those of functions for the same numbers of arguments. -/
structure Program.SameNames (program other : Program Span) : Prop where
  constants : ∀ name, name ∈ program.constants.map (·.name) ↔ name ∈ other.constants.map (·.name)
  functions : ∀ name, name ∈ program.functions.map (·.name) ↔ name ∈ other.functions.map (·.name)
  arities : ∀ name, (program.functions.find? (·.name == name)).map (·.arity) =
    (other.functions.find? (·.name == name)).map (·.arity)

section SameNames

variable {program other : Program Span}

/-- The parameters of a function are judged alike in programs with the same names. -/
theorem Parameter.offences_congr (same : program.SameNames other) (function : Function Span) :
    Parameter.offences program function = Parameter.offences other function := by
  -- Of other declarations only the names are asked for.
  funext earlier parameter
  simp only [Parameter.offences, same.constants, same.functions]

/-- A call is judged alike in programs with the same names. -/
private theorem Program.callOffences_congr (same : program.SameNames other)
    (function callee : String)
    (arguments : Nat) (span : Span) :
    program.callOffences function callee arguments span =
      other.callOffences function callee arguments span := by
  -- Of the function that is called, only the arity is asked for.
  have arity := same.arities callee
  unfold Program.callOffences
  cases here : program.functions.find? (·.name == callee) <;>
    cases there : other.functions.find? (·.name == callee) <;> simp_all

mutual

/-- An expression has the same offences in both programs. -/
theorem Expr.offences_congr (same : program.SameNames other) (function : String)
    (known : List String) : ∀ expr : Expr Span,
      expr.offences program function known = expr.offences other function known
  | .literal _ _ => rfl
  | .name _ _ => by simp only [Expr.offences, same.constants]
  | .binary _ _ left right => by
    rw [Expr.offences, offences_congr same function known left,
      offences_congr same function known right, Expr.offences]
  | .call _ _ args => by
    rw [Expr.offences, Program.callOffences_congr same,
      offencesOfAll_congr same function known args, Expr.offences]
  | .group _ inner => by rw [Expr.offences, offences_congr same function known inner, Expr.offences]

/-- Expressions in a row have the same offences in both programs. -/
private theorem Expr.offencesOfAll_congr (same : program.SameNames other) (function : String)
    (known : List String) : ∀ args : List (Expr Span),
      Expr.offencesOfAll program function known args = Expr.offencesOfAll other function known args
  | [] => rfl
  | arg :: rest => by
    rw [Expr.offencesOfAll, offences_congr same function known arg,
      offencesOfAll_congr same function known rest, Expr.offencesOfAll]

end

/-- A statement is judged alike in programs with the same names. -/
theorem Statement.offences_congr (same : program.SameNames other) (function : Function Span) :
    Statement.offences program function = Statement.offences other function := by
  -- Of other declarations only the names are asked for, and the arities in calls.
  funext earlier statement
  have targets : statement.targetOffences program = statement.targetOffences other := by
    cases statement with
    | returns span value => rfl
    | assign span target value =>
      simp only [Statement.targetOffences, same.constants, same.functions]
  rw [Statement.offences, targets, Expr.offences_congr same, Statement.offences]

end SameNames

namespace Program

/-- A program is given an environment exactly if it has no offences, and then that of its names. -/
theorem check_eq_ok_iff {program : Program Span} {env : Environment} :
    program.check = .ok env ↔ program.offences = [] ∧ program.listing = env := by
  rw [check_eq_verdict]
  cases program.offences <;> simp [Offence.verdict]

/-- Constants have no offences exactly if their names are distinct and none is reserved. -/
private theorem constantOffences_eq_nil_iff (constants : List (Constant Span)) :
    Offence.inTurn Constant.offences [] constants = [] ↔ (constants.map (·.name)).Nodup ∧
      ∀ constant ∈ constants, PoolName.isReserved constant.name = false := by
  -- A constant is asked for its own name and those before it.
  refine Offence.inTurn_eq_nil_iff (fun earlier constant => ?_) constants
  unfold Constant.offences
  split
  · simp_all
  · split <;> simp_all

/-- Functions have no offences in their names exactly if these are distinct and no constants'. -/
theorem functionOffences_eq_nil_iff (constants : List (Constant Span))
    (functions : List (Function Span)) :
    Offence.inTurn (Function.nameOffences constants) [] functions = [] ↔
      (functions.map (·.name)).Nodup ∧
        ∀ function ∈ functions, function.name ∉ constants.map (·.name) := by
  -- A function is asked for its own name, those before it and the constants.
  refine Offence.inTurn_eq_nil_iff (fun earlier function => ?_) functions
  unfold Function.nameOffences
  split
  · simp_all
  · split <;> simp_all

/-- Parameters have no offences exactly if their names are distinct and none is that of a constant
or of a function. -/
theorem parameterOffences_eq_nil_iff (program : Program Span) (function : Function Span) :
    Offence.inTurn (Parameter.offences program function) [] function.params = [] ↔
      (function.params.map (·.name)).Nodup ∧ ∀ param ∈ function.params,
        param.name ∉ program.constants.map (·.name) ∧
          param.name ∉ program.functions.map (·.name) := by
  -- A parameter is asked for its own name, those before it and all that is declared.
  refine Offence.inTurn_eq_nil_iff (fun earlier param => ?_) function.params
  unfold Parameter.offences
  split
  · simp_all
  · split
    · simp_all
    · split <;> simp_all

/-- A program with other lists of constants and functions. -/
def withDeclarations (program : Program Span) (constants : List (Constant Span))
    (functions : List (Function Span)) : Program Span :=
  { program with constants := constants, functions := functions }

variable {program : Program Span} {constants : List (Constant Span)}
  {functions : List (Function Span)}

/-- Declarations in another order declare the same names. -/
private theorem sameNames_of_perm (distinct : (program.functions.map (·.name)).Nodup)
    (constantsPerm : constants.Perm program.constants)
    (functionsPerm : functions.Perm program.functions) :
    (program.withDeclarations constants functions).SameNames program := by
  -- The names are the same in any order.
  refine ⟨fun name => (constantsPerm.map _).mem_iff, fun name => (functionsPerm.map _).mem_iff, ?_⟩
  intro name
  -- The function of a name is the same whichever comes first.
  have reordered : (functions.map (·.name)).Nodup := (functionsPerm.map _).nodup_iff.mpr distinct
  refine congrArg _ (Option.ext fun function => ?_)
  rw [find?_name_iff distinct, ← functionsPerm.mem_iff]
  exact find?_name_iff reordered

/-- A program in order is in order when its constants and functions are put in another one. -/
theorem check_of_perm {env : Environment} (accepted : program.check = .ok env)
    (constantsPerm : constants.Perm program.constants)
    (functionsPerm : functions.Perm program.functions) :
    (program.withDeclarations constants functions).check =
      .ok (program.withDeclarations constants functions).listing := by
  -- That there are no offences is a matter of names, and these are taken apart.
  obtain ⟨unoffended, -⟩ := check_eq_ok_iff.mp accepted
  simp only [offences, List.append_eq_nil_iff, List.flatMap_eq_nil_iff, List.filterMap_eq_nil_iff,
    constantOffences_eq_nil_iff, functionOffences_eq_nil_iff] at unoffended
  obtain ⟨⟨constantsDistinct, unreserved⟩, ⟨distinct, own⟩, params, main, bodies⟩ := unoffended
  have same := sameNames_of_perm distinct constantsPerm functionsPerm
  refine check_eq_ok_iff.mpr ⟨?_, rfl⟩
  simp only [offences, List.append_eq_nil_iff, List.flatMap_eq_nil_iff, List.filterMap_eq_nil_iff,
    constantOffences_eq_nil_iff, functionOffences_eq_nil_iff, Parameter.offences_congr same,
    Statement.offences_congr same]
  -- Each of the five rules asks the same of every declaration, wherever it stands.
  refine ⟨⟨(constantsPerm.map _).nodup_iff.mpr constantsDistinct, fun constant member =>
      unreserved constant (constantsPerm.mem_iff.mp member)⟩,
    ⟨(functionsPerm.map _).nodup_iff.mpr distinct, fun function member listed =>
      own function (functionsPerm.mem_iff.mp member) ((constantsPerm.map _).mem_iff.mp listed)⟩,
    fun function member => params function (functionsPerm.mem_iff.mp member),
    fun function member => main function (functionsPerm.mem_iff.mp member),
    fun function member => bodies function (functionsPerm.mem_iff.mp member)⟩

/-- The scope of a function in its program is made of its own names. -/
theorem scope_of_check {env : Environment} (accepted : program.check = .ok env)
    {function : Function Span} (member : function ∈ program.functions) :
    env.scope function.name = function.scopeBehind function.body := by
  -- An accepted program is given the environment of its own names.
  obtain ⟨unoffended, rfl⟩ := check_eq_ok_iff.mp accepted
  simp only [offences, List.append_eq_nil_iff, functionOffences_eq_nil_iff] at unoffended
  -- No other function has its name, so it is the one that is found.
  have found := (find?_name_iff unoffended.2.1.1).mpr ⟨member, rfl⟩
  simp only [Environment.scope, listing, Table.get?_ofMembers, found, Option.map_some,
    Option.getD_some]

end Program

end DoubleLang
