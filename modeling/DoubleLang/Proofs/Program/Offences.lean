import DoubleLang.Compilation.Stages
import DoubleLang.Proofs.Program.Checked

/-!
All offences of a program, in the order of the rules.

The list looks at declarations only: it holds each of them against those before it and against the
whole program, and keeps no tables. The check stops at the first offence of the list, and without
one it gives the names of the program.
-/

namespace DoubleLang

namespace Offence

/-- The first of some offences, or a value if there is none. -/
def verdict {α : Type} (offences : List Offence) (value : α) : Except Offence α :=
  match offences with
  | [] => .ok value
  | first :: _ => .error first

/-- What a rule finds in each item, held against the items before it. -/
def inTurn {α : Type} (rule : List α → α → List Offence) (earlier : List α) :
    List α → List Offence
  | [] => []
  | item :: rest => rule earlier item ++ inTurn rule (earlier ++ [item]) rest

end Offence

/-- A constant has a name of its own, and no pool entry's. -/
def Constant.offences (earlier : List (Constant Span)) (constant : Constant Span) :
    List Offence :=
  if constant.name ∈ earlier.map (·.name) then
    [⟨.duplicateConstant constant.name, constant.note⟩]
  else if PoolName.isReserved constant.name then
    [⟨.reservedConstant constant.name, constant.note⟩]
  else []

/-- A function has a name of its own among functions and constants. -/
def Function.nameOffences (constants : List (Constant Span)) (earlier : List (Function Span))
    (function : Function Span) : List Offence :=
  if function.name ∈ earlier.map (·.name) then
    [⟨.duplicateFunction function.name, function.note⟩]
  else if function.name ∈ constants.map (·.name) then
    [⟨.functionNamesConstant function.name, function.note⟩]
  else []

/-- A parameter has a name of its own in its function and in the program. -/
def Parameter.offences (program : Program Span) (function : Function Span)
    (earlier : List (Parameter Span)) (parameter : Parameter Span) : List Offence :=
  if parameter.name ∈ earlier.map (·.name) then
    [⟨.duplicateParameter function.name parameter.name, parameter.note⟩]
  else if parameter.name ∈ program.constants.map (·.name) then
    [⟨.parameterNamesConstant function.name parameter.name, parameter.note⟩]
  else if parameter.name ∈ program.functions.map (·.name) then
    [⟨.parameterNamesFunction function.name parameter.name, parameter.note⟩]
  else []

/-- A main function has no parameters. -/
def Function.mainOffence? (function : Function Span) : Option Offence :=
  if function.name = "main" ∧ function.params ≠ [] then some ⟨.mainWithParameters, function.note⟩
  else none

/-- A call names a function of the program, and has an argument for each of its parameters. -/
def Program.callOffences (program : Program Span) (function callee : String) (arguments : Nat)
    (span : Span) : List Offence :=
  match program.functions.find? (·.name == callee) with
  | none => [⟨.unknownFunction function callee, span⟩]
  | some declared =>
    if declared.arity = arguments then []
    else [⟨.arityMismatch callee function declared.arity arguments, span⟩]

/-- A call is in order exactly if there is a function of its name that takes as many arguments. -/
theorem Program.callOffences_eq_nil_iff {program : Program Span} {function callee : String}
    {arguments : Nat} {span : Span} :
    program.callOffences function callee arguments span = [] ↔
      (program.functions.find? (·.name == callee)).map (·.arity) = some arguments := by
  -- Without such a function there is an offence, and with it the counts are compared.
  unfold Program.callOffences
  cases program.functions.find? (·.name == callee) with
  | none => simp
  | some declared => simp

mutual

/-- An expression reads names that are known or constants, and its calls are in order. -/
def Expr.offences (program : Program Span) (function : String) (known : List String) :
    Expr Span → List Offence
  | .literal _ _ => []
  | .name span read =>
    if read ∈ known ∨ read ∈ program.constants.map (·.name) then []
    else [⟨.unknownVariable function read, span⟩]
  | .binary _ _ left right =>
    left.offences program function known ++ right.offences program function known
  -- An offence of the call itself comes before those of its arguments.
  | .call span callee args =>
    program.callOffences function callee args.length span ++
      Expr.offencesOfAll program function known args
  | .group _ inner => inner.offences program function known

/-- The offences of expressions, from left to right. -/
def Expr.offencesOfAll (program : Program Span) (function : String) (known : List String) :
    List (Expr Span) → List Offence
  | [] => []
  | arg :: rest =>
    arg.offences program function known ++ Expr.offencesOfAll program function known rest

end

/-- A target has neither the name of a constant nor that of a function. -/
def Statement.targetOffences (program : Program Span) : Statement Span → List Offence
  | .returns _ _ => []
  | .assign span target _ =>
    if target ∈ program.constants.map (·.name) then [⟨.localNamesConstant target, span⟩]
    else if target ∈ program.functions.map (·.name) then [⟨.localNamesFunction target, span⟩]
    else []

/-- A statement reads parameters of its function and targets of statements before it. -/
def Statement.offences (program : Program Span) (function : Function Span)
    (earlier : List (Statement Span)) (statement : Statement Span) : List Offence :=
  statement.targetOffences program ++ statement.value.offences program function.name
    (function.params.map (·.name) ++ Statement.targets earlier)

namespace Program

/-- The offences of a program: those of constants, of functions, of all their parameters, of the
main function and of all bodies. -/
def offences (program : Program Span) : List Offence :=
  Offence.inTurn Constant.offences [] program.constants ++
    (Offence.inTurn (Function.nameOffences program.constants) [] program.functions ++
    ((program.functions.flatMap fun function =>
      Offence.inTurn (Parameter.offences program function) [] function.params) ++
    (program.functions.filterMap Function.mainOffence? ++
    (program.functions.flatMap fun function =>
      Offence.inTurn (Statement.offences program function) [] function.body))))

end Program

/-- The table that lists the members of a list under their names. -/
def Table.ofMembers {α β : Type} (name : β → String) (value : β → α) (members : List β) :
    Table α :=
  ⟨members.map fun member => (name member, value member)⟩

/-- The names that statements of a function add to its parameters, each where it first comes up. -/
def Function.locals (function : Function Span) (statements : List (Statement Span)) :
    List String :=
  ((Statement.targets statements).filter (· ∉ function.params.map (·.name))).eraseDups

/-- The names of a function behind some statements: its parameters, then what they add. -/
def Function.scopeBehind (function : Function Span) (statements : List (Statement Span)) : Scope :=
  ⟨function.params.map (fun parameter => (parameter.name, .parameter)) ++
    (function.locals statements).map (·, .assigned)⟩

namespace Program

/-- The global names of a program. -/
def globals (program : Program Span) : Globals :=
  ⟨.ofMembers (·.name) (·.value) program.constants,
    .ofMembers (·.name) (·.arity) program.functions⟩

/-- The names of a program: the global ones, and those of each function. -/
def listing (program : Program Span) : Environment :=
  ⟨program.globals,
    .ofMembers (·.name) (fun function => function.scopeBehind function.body) program.functions⟩

end Program

namespace Offence

/-- The first of all offences is among the earlier ones, unless there are none of these. -/
private theorem verdict_append {α : Type} (front back : List Offence) (value : α) :
    verdict (front ++ back) value = verdict front () >>= fun _ => verdict back value := by
  -- Only the first of all offences matters.
  cases front with
  | nil => rfl
  | cons first rest => rfl

/-- A value that is passed on is the one that the rest is judged with. -/
private theorem verdict_bind {α β : Type} (offences : List Offence) (value : α)
    (next : α → Except Offence β) :
    verdict offences value >>= next = verdict offences () >>= fun _ => next value := by
  -- Only the first of all offences matters, and the value if there is none.
  cases offences with
  | nil => rfl
  | cons first rest => rfl

/-- What comes behind offences matters only if there are none. -/
private theorem verdict_bind_congr {α : Type} {offences : List Offence}
    {one other : Except Offence α}
    (same : offences = [] → one = other) :
    (verdict offences () >>= fun _ => one) = verdict offences () >>= fun _ => other := by
  -- With an offence the rest is never looked at.
  cases offences with
  | nil => rw [same rfl]
  | cons first rest => rfl

/-- Steps that each stop at the first offence of a rule stop at the first offence of all. -/
private theorem foldlM_eq_verdict {α σ : Type} {step : σ → α → Except Offence σ}
    {rule : List α → α → List Offence} (state : List α → σ)
    (agrees : ∀ earlier item,
      step (state earlier) item = verdict (rule earlier item) (state (earlier ++ [item])))
    (earlier items : List α) :
    items.foldlM step (state earlier) =
      verdict (inTurn rule earlier items) (state (earlier ++ items)) := by
  -- The state behind an item is that of the items through it.
  induction items generalizing earlier with
  | nil => simp [inTurn, verdict, pure, Except.pure]
  | cons item rest ih =>
    have later := ih (earlier ++ [item])
    simp only [List.append_assoc, List.cons_append, List.nil_append] at later
    rw [List.foldlM_cons, agrees, verdict_bind, later, inTurn, verdict_append]

/-- Steps for the members of a list stop at the first offence of all. -/
private theorem mapM_eq_verdict {α β : Type} {step : α → Except Offence β} {rule : α → List Offence}
    {value : α → β} (agrees : ∀ item, step item = verdict (rule item) (value item))
    (items : List α) :
    items.mapM step = verdict (items.flatMap rule) (items.map value) := by
  -- The step of one member passes its value on, or stops with its first offence.
  induction items with
  | nil => rfl
  | cons item rest ih =>
    rw [List.mapM_cons, agrees, verdict_bind, ih, verdict_bind, List.flatMap_cons, verdict_append,
      List.map_cons]
    cases rest.flatMap rule <;> rfl

end Offence

namespace Table

variable {α β : Type} (name : β → String) (value : β → α) (members : List β)

/-- A table of members has their names. -/
private theorem contains_ofMembers (wanted : String) :
    (ofMembers name value members).contains wanted = decide (wanted ∈ members.map name) := by
  simp [ofMembers, contains, names, Function.comp_def]

/-- A table of members has the value of the first one with a name. -/
theorem get?_ofMembers (wanted : String) :
    (ofMembers name value members).get? wanted =
      (members.find? (name · == wanted)).map value := by
  -- Look-up and search pass the same members.
  simp only [ofMembers, get?]
  induction members with
  | nil => rfl
  | cons member rest ih =>
    by_cases same : wanted = name member
    · simp [same]
    · have differ : (wanted == name member) = false := beq_false_of_ne same
      have other : (name member == wanted) = false := beq_false_of_ne (Ne.symm same)
      simp only [List.map_cons, List.lookup_cons, differ, List.find?_cons, other, ih]

/-- A table of members takes in one more under a new name. -/
private theorem set_ofMembers {member : β} (fresh : name member ∉ members.map name) :
    (ofMembers name value members).set (name member) (value member) =
      ofMembers name value (members ++ [member]) := by
  -- A new name has no entry, so the member comes behind all others.
  have entries := entries_set_of_not_mem (ofMembers name value members) (value member)
    (by simpa [ofMembers, names, Function.comp_def] using fresh)
  rw [show ofMembers name value (members ++ [member]) =
    ⟨(ofMembers name value members).entries ++ [(name member, value member)]⟩ by simp [ofMembers]]
  exact congrArg Table.mk entries

end Table

namespace Check

open Offence

/-- Constants are checked one by one, each against those before it. -/
private theorem constants_eq_verdict (constants : List (Constant Span)) :
    constants.foldlM Check.constant .empty =
      verdict (inTurn Constant.offences [] constants)
        (.ofMembers (·.name) (·.value) constants) := by
  -- The table holds the constants before the one that is checked.
  refine foldlM_eq_verdict (Table.ofMembers (·.name) (·.value)) ?_ [] constants
  intro earlier constant
  simp only [Check.constant, Table.contains_ofMembers, decide_eq_true_eq, Constant.offences]
  split
  · rfl
  · rename_i fresh
    split
    · rfl
    · rw [Table.set_ofMembers (·.name) (·.value) earlier fresh]
      rfl

/-- Functions are checked one by one, each against those before it and the constants. -/
private theorem functions_eq_verdict (constants : List (Constant Span))
    (functions : List (Function Span)) :
    functions.foldlM (Check.function (.ofMembers (·.name) (·.value) constants)) .empty =
      verdict (inTurn (Function.nameOffences constants) [] functions)
        (.ofMembers (·.name) (·.arity) functions) := by
  -- The table holds the functions before the one that is checked, and all constants are known.
  refine foldlM_eq_verdict (Table.ofMembers (·.name) (·.arity)) ?_ [] functions
  intro earlier function
  simp only [Check.function, Table.contains_ofMembers, decide_eq_true_eq, Function.nameOffences]
  split
  · rfl
  · rename_i fresh
    split
    · rfl
    · rw [Table.set_ofMembers (·.name) (·.arity) earlier fresh]
      rfl

/-- Parameters are checked one by one, and are the scope that a body starts with. -/
private theorem parameters_eq_verdict (program : Program Span) (function : Function Span) :
    Check.parameters program.globals function =
      verdict (inTurn (Parameter.offences program function) [] function.params)
        (function.scopeBehind []) := by
  -- Behind no statement a function has its parameters only.
  have start : function.scopeBehind [] =
      .ofMembers (·.name) (fun _ => .parameter) function.params := by
    simp [Function.scopeBehind, Function.locals, Statement.targets, Table.ofMembers]
  rw [start]
  refine foldlM_eq_verdict (Table.ofMembers (·.name) fun _ => Role.parameter) ?_ []
    function.params
  intro earlier parameter
  simp only [Check.parameter, Program.globals, Table.contains_ofMembers, decide_eq_true_eq,
    Parameter.offences]
  split
  · rfl
  · rename_i fresh
    split
    · rfl
    · split
      · rfl
      · rw [Table.set_ofMembers (·.name) (fun _ => Role.parameter) earlier fresh]
        rfl

/-- A function is found in the table of arities as it is found in the program. -/
private theorem call_eq_verdict (program : Program Span) (function callee : String) (span : Span)
    (arguments : Nat) :
    (match program.globals.arities.get? callee with
      | none => .error ⟨.unknownFunction function callee, span⟩
      | some arity =>
        if arity = arguments then .ok ()
        else .error ⟨.arityMismatch callee function arity arguments, span⟩) =
      verdict (program.callOffences function callee arguments span) () := by
  -- The first function of a name is the one whose arity the table has.
  simp only [Program.globals, Table.get?_ofMembers, Program.callOffences]
  cases program.functions.find? (·.name == callee) with
  | none => rfl
  | some declared =>
    simp only [Option.map_some]
    split <;> rfl

mutual

/-- An expression is checked from left to right, against the names in scope. -/
private theorem expr_eq_verdict (program : Program Span) (function : String) {scope : Scope}
    {known : List String} (same : ∀ name, name ∈ scope.names ↔ name ∈ known) :
    ∀ expr : Expr Span, Check.expr program.globals function scope expr =
      verdict (expr.offences program function known) ()
  | .literal _ _ => rfl
  | .name span read => by
    have listed : scope.contains read = decide (read ∈ known) := by
      simp [Table.contains, same]
    simp only [Check.expr, Program.globals, Table.contains_ofMembers, listed, Expr.offences,
      Bool.or_eq_true, decide_eq_true_eq]
    split <;> rfl
  | .binary _ _ left right => by
    rw [Check.expr, Expr.offences, verdict_append, expr_eq_verdict program function same left,
      expr_eq_verdict program function same right]
  | .call span callee args => by
    -- The call is judged first, and its arguments only if it is in order.
    rw [Check.expr, Expr.offences, verdict_append, ← call_eq_verdict,
      ← exprs_eq_verdict program function same args]
    cases program.globals.arities.get? callee with
    | none => rfl
    | some arity =>
      by_cases fits : arity = args.length
      · simp only [fits, if_true]
        rfl
      · simp only [fits, if_false]
        rfl
  | .group _ inner => by
    rw [Check.expr, Expr.offences, expr_eq_verdict program function same inner]

/-- Expressions are checked one after another. -/
private theorem exprs_eq_verdict (program : Program Span) (function : String) {scope : Scope}
    {known : List String} (same : ∀ name, name ∈ scope.names ↔ name ∈ known) :
    ∀ args : List (Expr Span), Check.exprs program.globals function scope args =
      verdict (Expr.offencesOfAll program function known args) ()
  | [] => rfl
  | arg :: rest => by
    rw [Check.exprs, Expr.offencesOfAll, verdict_append, expr_eq_verdict program function same arg,
      exprs_eq_verdict program function same rest]

end

end Check

/-- One more statement adds its target to the targets. -/
private theorem Statement.targets_concat (earlier : List (Statement Span))
    (statement : Statement Span) :
    targets (earlier ++ [statement]) = targets earlier ++ statement.target?.toList := by
  cases found : statement.target? <;> simp [targets, found]

namespace Function

/-- One more assignment adds its target, unless that is a parameter or has come up before. -/
private theorem locals_assign (function : Function Span) (earlier : List (Statement Span))
    (span : Span)
    (target : String) (value : Expr Span) :
    function.locals (earlier ++ [.assign span target value]) =
      function.locals earlier ++
        if target ∈ function.params.map (·.name) ++ Statement.targets earlier then []
        else [target] := by
  -- The targets are filtered for parameters first, and then freed of repetitions.
  have targets : Statement.targets (earlier ++ [.assign span target value]) =
      Statement.targets earlier ++ [target] := Statement.targets_concat earlier _
  rw [locals, targets, List.filter_append, List.eraseDups_append, locals]
  -- What is left of the new target depends on whether it was known.
  by_cases listed : target ∈ function.params.map (·.name)
  · rw [List.filter_cons_of_neg (by simpa using listed), if_pos (List.mem_append_left _ listed)]
    rfl
  · have own : decide (target ∉ function.params.map (·.name)) = true := by simpa using listed
    rw [List.filter_cons_of_pos (by exact own), List.filter_nil, List.removeAll]
    by_cases assigned : target ∈ Statement.targets earlier
    · have seen : target ∈ (Statement.targets earlier).filter
          (· ∉ function.params.map (·.name)) := List.mem_filter.mpr ⟨assigned, own⟩
      rw [List.filter_cons_of_neg (by simpa using seen),
        if_pos (List.mem_append_right _ assigned)]
      rfl
    · rw [List.filter_cons_of_pos (by simp [assigned]),
        if_neg (by simp only [List.mem_append, not_or]; exact ⟨listed, assigned⟩)]
      rfl

/-- The names of a function behind statements are its parameters and their targets. -/
private theorem mem_scopeBehind (function : Function Span) (statements : List (Statement Span))
    (name : String) : name ∈ (function.scopeBehind statements).names ↔
      name ∈ function.params.map (·.name) ++ Statement.targets statements := by
  -- Filtering and freeing of repetitions lose no name that is not a parameter.
  have names : (function.scopeBehind statements).names =
      function.params.map (·.name) ++ function.locals statements := by
    simp [scopeBehind, Table.names, Function.comp_def]
  rw [names, locals, List.mem_append, List.mem_append, List.mem_eraseDups, List.mem_filter,
    decide_eq_true_eq]
  tauto

/-- A return leaves the names as they are. -/
private theorem scopeBehind_returns (function : Function Span) (earlier : List (Statement Span))
    (span : Span) (value : Expr Span) :
    function.scopeBehind (earlier ++ [.returns span value]) = function.scopeBehind earlier := by
  simp [scopeBehind, locals, Statement.targets_concat, Statement.target?]

/-- An assignment adds its target to the names, unless it is there. -/
private theorem scopeBehind_assign (function : Function Span) (earlier : List (Statement Span))
    (span : Span) (target : String) (value : Expr Span) :
    function.scopeBehind (earlier ++ [.assign span target value]) =
      if (function.scopeBehind earlier).contains target then function.scopeBehind earlier
      else (function.scopeBehind earlier).set target .assigned := by
  -- Whether the target is in scope is a matter of parameters and earlier targets.
  have member := function.mem_scopeBehind earlier target
  -- A known target changes nothing, and a new one comes behind all others.
  by_cases known : target ∈ (function.scopeBehind earlier).names
  · rw [if_pos (Table.contains_iff.mpr known), scopeBehind, locals_assign,
      if_pos (member.mp known), List.append_nil, scopeBehind]
  · rw [if_neg (mt Table.contains_iff.mp known), scopeBehind, locals_assign,
      if_neg (mt member.mpr known), List.map_append, ← List.append_assoc]
    exact (congrArg Table.mk (Table.entries_set_of_not_mem _ _ known)).symm

end Function

namespace Check

open Offence

/-- Statements are checked one by one, each with the names of those before it. -/
private theorem body_eq_verdict (program : Program Span) (function : Function Span) :
    Check.body program.globals function (function.scopeBehind []) =
      verdict (inTurn (Statement.offences program function) [] function.body)
        (function.scopeBehind function.body) := by
  -- The scope in front of a statement is the one behind those before it.
  refine foldlM_eq_verdict function.scopeBehind ?_ [] function.body
  intro earlier statement
  have value := expr_eq_verdict program function.name (function.mem_scopeBehind earlier)
    statement.value
  cases statement with
  | returns span result =>
    rw [Check.statement, Function.scopeBehind_returns]
    simp only [Statement.value] at value
    rw [value]
    simp only [Statement.offences, Statement.targetOffences, List.nil_append, Statement.value]
    rw [verdict_bind]
    cases Expr.offences program function.name _ result <;> rfl
  | assign span target result =>
    simp only [Statement.value] at value
    simp only [Check.statement, Statement.offences, Statement.targetOffences, Statement.value,
      Program.globals, Table.contains_ofMembers, decide_eq_true_eq]
    -- The target is judged before the expression.
    split
    · rfl
    · split
      · rfl
      · rw [Function.scopeBehind_assign, List.nil_append]
        rw [Program.globals] at value
        rw [value]
        cases Expr.offences program function.name _ result <;> rfl

/-- The main function is looked for by its name, which only one function has. -/
private theorem mainFunction_eq_verdict {functions : List (Function Span)}
    (distinct : (functions.map (·.name)).Nodup) :
    Check.mainFunction functions = verdict (functions.filterMap Function.mainOffence?) () := by
  -- The first function of the name is the one that is looked at.
  induction functions with
  | nil => rfl
  | cons function rest ih =>
    simp only [List.map_cons, List.nodup_cons] at distinct
    by_cases named : function.name = "main"
    · -- No other function is a main function, so no other is an offence.
      have others : rest.filterMap Function.mainOffence? = [] := by
        rw [List.filterMap_eq_nil_iff]
        intro other member
        have differ : other.name ≠ "main" := by
          intro same
          exact distinct.1 (List.mem_map.mpr ⟨other, member, same.trans named.symm⟩)
        simp [Function.mainOffence?, differ]
      cases params : function.params with
      | nil => simp [Check.mainFunction, Function.mainOffence?, named, params, others, verdict]
      | cons first more =>
        simp [Check.mainFunction, Function.mainOffence?, named, params, others, verdict]
    · have differ : (function.name == "main") = false := beq_false_of_ne named
      have later := ih distinct.2
      simp only [Check.mainFunction, List.find?_cons, differ] at later ⊢
      simpa [Function.mainOffence?, named] using later

end Check

open Offence in
/-- The scopes of the functions are those behind their bodies. -/
private theorem Check.scopes_eq_verdict (program : Program Span) :
    ((program.functions.zip (program.functions.map (·.scopeBehind []))).mapM
      fun (function, start) => do
        return (function.name, ← Check.body program.globals function start)) =
      verdict (program.functions.flatMap fun function =>
          inTurn (Statement.offences program function) [] function.body)
        (program.functions.map fun function =>
          (function.name, function.scopeBehind function.body)) := by
  -- Each function is paired with its own start, so the pairs are made from the functions.
  rw [← List.map_prod_left_eq_zip, List.mapM_map]
  refine mapM_eq_verdict ?_ program.functions
  intro function
  simp only [Function.comp_apply]
  rw [Check.body_eq_verdict, verdict_bind]
  cases inTurn (Statement.offences program function) [] function.body <;> rfl

open Offence in
/-- The check of a program gives its names, or the first of its offences. -/
theorem Program.check_eq_verdict (program : Program Span) :
    program.check = verdict program.offences program.listing := by
  -- The five parts of the check come in the order of the five parts of the list.
  rw [Program.check, Check.constants_eq_verdict, verdict_bind, Program.offences, verdict_append]
  refine verdict_bind_congr fun _ => ?_
  rw [Check.functions_eq_verdict, verdict_bind, verdict_append]
  refine verdict_bind_congr fun unoffended => ?_
  -- Without an offence in their names, functions have distinct names.
  have distinct : (program.functions.map (·.name)).Nodup := by
    have accepted := Check.functions_eq_verdict program.constants program.functions
    rw [unoffended] at accepted
    obtain ⟨-, distinct, -⟩ := Check.foldlM_enters (Check.function_enters _) accepted
    simpa [Table.ofMembers, Table.names, Function.comp_def] using
      distinct (by simp [Table.names, Table.empty])
  -- From here on the tables are the global names of the program.
  show (program.functions.mapM (Check.parameters program.globals) >>= fun starts =>
    Check.mainFunction program.functions >>= fun _ =>
    ((program.functions.zip starts).mapM fun (function, start) => do
      return (function.name, ← Check.body program.globals function start)) >>= fun scopes =>
    pure (⟨program.globals, ⟨scopes⟩⟩ : Environment)) = _
  rw [mapM_eq_verdict (Check.parameters_eq_verdict program), verdict_bind, verdict_append]
  refine verdict_bind_congr fun _ => ?_
  rw [Check.mainFunction_eq_verdict distinct, verdict_append]
  refine verdict_bind_congr fun _ => ?_
  rw [Check.scopes_eq_verdict, verdict_bind]
  cases program.functions.flatMap _ <;> rfl

namespace Violation

/-- The names that a breach is about, as its wording has them. -/
def names : Violation → List String
  | .duplicateConstant name | .duplicateFunction name | .reservedConstant name
  | .functionNamesConstant name | .localNamesConstant name | .localNamesFunction name => [name]
  | .parameterNamesConstant function name
  | .parameterNamesFunction function name => [function, name]
  | .duplicateParameter function name | .unknownVariable function name
  | .unknownFunction function name => [name, function]
  | .arityMismatch callee caller _ _ => [callee, caller]
  | .mainWithParameters => []

/-- A text has a name in quotes. -/
def Quotes (name text : String) : Prop :=
  ∃ front back : String, text = front ++ "'" ++ name ++ "'" ++ back

/-- A name stands in quotes where what comes before ends in one and what follows starts with one. -/
private theorem quotes_between {name front back : String}
    (opens : "'".toList <:+ front.toList) (closes : "'".toList <+: back.toList) :
    Quotes name (front ++ name ++ back) := by
  -- The quotes are split off both sides.
  obtain ⟨before, ends⟩ := opens
  obtain ⟨behind, starts⟩ := closes
  refine ⟨String.ofList before, String.ofList behind, ?_⟩
  rw [← String.toList_inj]
  simp [← ends, ← starts]

/-- More text behind leaves a name in its quotes. -/
private theorem Quotes.append {name text : String} (quoted : Quotes name text) (more : String) :
    Quotes name (text ++ more) := by
  obtain ⟨front, back, rfl⟩ := quoted
  exact ⟨front, back ++ more, String.append_assoc⟩

/-- The wording of a breach has all its names in quotes. -/
private theorem quotes_names {breach : Violation} {name : String} (about : name ∈ breach.names) :
    Quotes name breach.message := by
  -- A quote between two names ends what comes before the second.
  have closing {text quote : String} (ends : "'".toList <:+ quote.toList) :
      "'".toList <:+ (text ++ quote).toList := by
    rw [String.toList_append]
    exact List.suffix_append_of_suffix ends
  cases breach with
  | duplicateConstant _ | duplicateFunction _ | reservedConstant _ | functionNamesConstant _
  | localNamesConstant _ | localNamesFunction _ =>
    -- These messages have one name, with the quotes around it in the fixed texts beside it.
    obtain rfl := List.mem_singleton.mp about
    exact quotes_between (by decide) (by decide)
  | parameterNamesConstant _ _ | parameterNamesFunction _ _ | duplicateParameter _ _
  | unknownVariable _ _ | unknownFunction _ _ =>
    rcases List.mem_cons.mp about with rfl | second
    · exact ((quotes_between (by decide) (by decide)).append _).append _
    · obtain rfl := List.mem_singleton.mp second
      exact quotes_between (closing (by decide)) (by decide)
  | arityMismatch _ _ _ _ =>
    rcases List.mem_cons.mp about with rfl | second
    · exact ((((((quotes_between (by decide) (by decide)).append _).append _).append _).append
        _).append _).append _
    · obtain rfl := List.mem_singleton.mp second
      exact quotes_between (closing (by decide)) (by decide)
  | mainWithParameters => cases about

/-- The identifier of a breach is numbered by the rule that is broken. -/
private theorem id_code (breach : Violation) :
    breach.code.id = "DBL" ++ toString (401 + breach.ctorIdx) := by
  cases breach <;> dsimp only [code, Code.id, Violation.ctorIdx] <;> decide

end Violation

/-- The report of an offence: an error at the start of its span, with the code and the wording of
the breach. The identifier tells which rule is broken, and the wording has the names it is about. -/
structure Offence.Reported (offence : Offence) (report : Diagnostic) : Prop where
  severity : report.severity = .error
  code : report.code = offence.violation.code
  id : report.code.id = "DBL" ++ toString (401 + offence.violation.ctorIdx)
  message : report.message = offence.violation.message
  names : ∀ name ∈ offence.violation.names, Violation.Quotes name report.message
  file : report.file = offence.span.file
  line : report.place.map (·.line) = some offence.span.start.line
  column : report.place.map (·.column) = some offence.span.start.column

/-- A program without offences is given the environment of its names and nothing is reported; of any
other program the first offence is reported, and nothing else. -/
theorem Program.environment_reports_first_offence (program : Program Span)
    (log : List Diagnostic) :
    match program.offences with
    | [] => program.checkInto log = (some program.listing, log)
    | first :: _ =>
      ∃ report, first.Reported report ∧ program.checkInto log = (none, log ++ [report]) := by
  -- The pass stops with the first offence of the list.
  rw [Program.checkInto, Program.check_eq_verdict]
  cases program.offences with
  | nil => rfl
  | cons first rest =>
    exact ⟨_, ⟨rfl, rfl, first.violation.id_code, rfl, fun _ => Violation.quotes_names, rfl, rfl,
      rfl⟩, rfl⟩

-- Offences of several kinds: names come before bodies, and a call before its arguments.
example :
    let here : Span := ⟨"rules", .start, .start⟩
    let body : List (Statement Span) := [.assign here "k" (.call here "g" [.name here "x"]),
      .returns here (.name here "k")]
    let program : Program Span :=
      ⟨here, "rules", [⟨here, "k", "1"⟩], [⟨here, "f", [⟨here, "f"⟩], body⟩, ⟨here, "k", [], []⟩]⟩
    program.offences.map (·.violation) =
      [.functionNamesConstant "k", .parameterNamesFunction "f" "f", .localNamesConstant "k",
        .unknownFunction "f" "g", .unknownVariable "f" "x"] := by
  decide

end DoubleLang
