import DoubleLang.Program.Environment
import Mathlib.Data.List.Forall2
import Mathlib.Data.List.Nodup

/-! What is known of a program that keeps the rules, and of the environment it is given. -/

namespace DoubleLang

/-- Two steps in a row succeed when the first does and the second does with its outcome. -/
theorem bind_eq_ok_iff {ε α β : Type} {first : Except ε α} {next : α → Except ε β} {value : β} :
    first >>= next = .ok value ↔ ∃ made, first = .ok made ∧ next made = .ok value := by
  -- A first step that fails ends both.
  cases first with
  | error fault => simp [bind, Except.bind]
  | ok made => simp [bind, Except.bind]

/-- A failure in other words is a failure. -/
theorem mapError_eq_error_iff {ε δ α : Type} {outcome : Except ε α} {wording : ε → δ} {report : δ} :
    outcome.mapError wording = .error report ↔
      ∃ cause, outcome = .error cause ∧ wording cause = report := by
  cases outcome <;> simp [Except.mapError]

/-- A success is not changed by the wording of failures. -/
theorem mapError_eq_ok_iff {ε δ α : Type} {outcome : Except ε α} {wording : ε → δ} {value : α} :
    outcome.mapError wording = .ok value ↔ outcome = .ok value := by
  cases outcome <;> simp [Except.mapError]

/-- Outcomes that agree but for the wording of failures are both the same value, or both failures
that agree but for the wording. -/
theorem cases_of_mapError_eq {ε δ α : Type} {first second : Except ε α} {wording : ε → δ}
    (same : first.mapError wording = second.mapError wording) :
    (∃ value, first = .ok value ∧ second = .ok value) ∨
      ∃ one other, first = .error one ∧ second = .error other ∧ wording one = wording other := by
  cases first <;> cases second <;> simp_all [Except.mapError]

/-- A step for each member of a list succeeds when every one of them does. -/
theorem mapM_eq_ok_iff {ε α β : Type} {step : α → Except ε β} {items : List α} {made : List β} :
    items.mapM step = .ok made ↔
      List.Forall₂ (fun item value => step item = .ok value) items made := by
  -- The first member has to succeed, and then the rest.
  induction items generalizing made with
  | nil =>
    simp only [List.mapM_nil, List.forall₂_nil_left_iff]
    exact ⟨fun same => (Except.ok.inj same).symm, fun same => same ▸ rfl⟩
  | cons item rest ih =>
    simp only [List.mapM_cons, bind_eq_ok_iff, List.forall₂_cons_left_iff]
    constructor
    · rintro ⟨value, here, values, later, same⟩
      exact ⟨value, values, here, ih.mp later, (Except.ok.inj same).symm⟩
    · rintro ⟨value, values, here, later, rfl⟩
      exact ⟨value, here, values, ih.mpr later, rfl⟩

namespace Table

variable {α : Type}

/-- Setting a name that is not there yet adds it behind the others. -/
theorem names_set_of_not_mem (table : Table α) {name : String} (value : α)
    (fresh : name ∉ table.names) : (table.set name value).names = table.names ++ [name] := by
  -- A new entry stands behind all others.
  simp [names, entries_set_of_not_mem table value fresh]

/-- Where names are distinct, each entry is found under its name. -/
theorem get?_of_mem {table : Table α} {name : String} {value : α} (distinct : table.names.Nodup)
    (listed : (name, value) ∈ table.entries) : table.get? name = some value := by
  -- Look-up stops at the first entry of the name, and there is only one.
  obtain ⟨entries⟩ := table
  simp only [names, get?] at distinct listed ⊢
  induction entries with
  | nil => simp at listed
  | cons entry rest ih =>
    obtain ⟨known, old⟩ := entry
    simp only [List.map_cons, List.nodup_cons] at distinct
    rcases List.mem_cons.mp listed with same | later
    · cases same
      simp
    · -- The name is among the later ones, so the first entry has another.
      have differ : (name == known) = false := by
        refine beq_false_of_ne ?_
        rintro rfl
        exact distinct.1 (List.mem_map.mpr ⟨_, later, rfl⟩)
      rw [List.lookup_cons, differ]
      exact ih distinct.2 later

/-- What is found under a name is an entry. -/
theorem mem_of_get? {table : Table α} {name : String} {value : α}
    (found : table.get? name = some value) : (name, value) ∈ table.entries := by
  -- What is found stands somewhere among the entries.
  obtain ⟨entries⟩ := table
  simp only [get?] at found ⊢
  obtain ⟨front, back, rfl, -⟩ := List.lookup_eq_some_iff.mp found
  simp

end Table

namespace Statement

/-- The name a statement assigns to. -/
def target? {α : Type} : Statement α → Option String
  | .assign _ target _ => some target
  | .returns _ _ => none

/-- The names statements assign to, in order. -/
def targets {α : Type} (statements : List (Statement α)) : List String :=
  statements.filterMap target?

/-- Statements in two parts assign to the names of both. -/
theorem targets_append {α : Type} (before after : List (Statement α)) :
    targets (before ++ after) = targets before ++ targets after :=
  List.filterMap_append

end Statement

/-- A function in order: its names are its own, and each is known where it is read. -/
structure Function.Checked (globals : Globals) (scope : Scope) (function : Function Span) :
    Prop where
  params_distinct : (function.params.map (·.name)).Nodup
  params_own : ∀ param ∈ function.params, param.name ∉ globals.constants.names
  targets_own : ∀ target ∈ Statement.targets function.body, target ∉ globals.constants.names
  known : ∀ before statement after, function.body = before ++ statement :: after →
    ∀ name ∈ statement.value.names, name ∈ function.params.map (·.name) ∨
      name ∈ Statement.targets before ∨ name ∈ globals.constants.names
  in_scope : ∀ name, name ∈ scope.names ↔
    name ∈ function.params.map (·.name) ∨ name ∈ Statement.targets function.body

/-- A program in order, and the environment that lists its names. -/
structure Program.Checked (env : Environment) (program : Program Span) : Prop where
  constants : env.constants.entries = program.constants.map fun constant =>
    (constant.name, constant.value)
  constants_distinct : (program.constants.map (·.name)).Nodup
  unreserved : ∀ constant ∈ program.constants, PoolName.isReserved constant.name = false
  functions_distinct : (program.functions.map (·.name)).Nodup
  functions_own : ∀ function ∈ program.functions,
    function.name ∉ program.constants.map (·.name)
  functions : ∀ function ∈ program.functions,
    function.Checked env.toGlobals (env.scope function.name)

/-- The constants that are known are those that the program declares. -/
theorem Program.Checked.names_constants {env : Environment} {program : Program Span}
    (checked : program.Checked env) : env.constants.names = program.constants.map (·.name) := by
  rw [Table.names, checked.constants, List.map_map]
  rfl

/-- Every function has an identifier for its name. -/
def Program.Identified (program : Program Span) : Prop :=
  ∀ function ∈ program.functions, Piece.isIdentifierText function.name.toList = true

namespace Check

/-- Taking names in one by one lists all of them, if each is refused once it is known. -/
theorem foldlM_enters {α β : Type} {step : Table β → α → Except Offence (Table β)}
    {name : α → String} {value : α → β} {Admitted : α → Prop}
    (enters : ∀ known item next, step known item = .ok next →
      name item ∉ known.names ∧ Admitted item ∧ next = known.set (name item) (value item))
    {items : List α} {known result : Table β} (checked : items.foldlM step known = .ok result) :
    result.entries = known.entries ++ items.map (fun item => (name item, value item)) ∧
      (known.names.Nodup → result.names.Nodup) ∧ ∀ item ∈ items, Admitted item := by
  -- Each name is refused if it is known, so every turn adds a new one at the end.
  induction items generalizing known with
  | nil =>
    cases checked
    simp
  | cons item rest ih =>
    rw [List.foldlM_cons, bind_eq_ok_iff] at checked
    obtain ⟨next, here, later⟩ := checked
    obtain ⟨fresh, admitted, rfl⟩ := enters known item next here
    obtain ⟨entries, distinct, others⟩ := ih later
    refine ⟨?_, ?_, by simpa [admitted] using others⟩
    · -- The new entry stands between the known ones and those to come.
      rw [entries, Table.entries_set_of_not_mem known _ fresh]
      simp
    · intro known_distinct
      apply distinct
      rw [Table.names_set_of_not_mem known _ fresh]
      exact List.nodup_append.mpr ⟨known_distinct, by simp, by
        intro first member second single
        rw [List.mem_singleton.mp single]
        rintro rfl
        exact fresh member⟩

/-- A constant comes in under a name that is new and not reserved. -/
private theorem constant_enters (known : Table String) (item : Constant Span) (next : Table String)
    (checked : Check.constant known item = .ok next) :
    item.name ∉ known.names ∧ PoolName.isReserved item.name = false ∧
      next = known.set item.name item.value := by
  -- Both refusals lead to an offence, so neither of them applies.
  unfold Check.constant at checked
  split at checked
  · cases checked
  · rename_i fresh
    split at checked
    · cases checked
    · rename_i free
      cases checked
      exact ⟨by simpa [Table.contains] using fresh, by simpa using free, rfl⟩

/-- A function comes in under a name that is new and no constant's. -/
theorem function_enters (constants : Table String) (known : Table Nat) (item : Function Span)
    (next : Table Nat) (checked : Check.function constants known item = .ok next) :
    item.name ∉ known.names ∧ item.name ∉ constants.names ∧
      next = known.set item.name item.arity := by
  -- Both refusals lead to an offence, so neither of them applies.
  unfold Check.function at checked
  split at checked
  · cases checked
  · rename_i fresh
    split at checked
    · cases checked
    · rename_i apart
      cases checked
      exact ⟨by simpa [Table.contains] using fresh, by simpa [Table.contains] using apart, rfl⟩

/-- A parameter comes in under a name that is new and nothing else's. -/
private theorem parameter_enters (globals : Globals) (function : String) (known : Scope)
    (item : Parameter Span) (next : Scope)
    (checked : Check.parameter globals function known item = .ok next) :
    item.name ∉ known.names ∧ item.name ∉ globals.constants.names ∧
      next = known.set item.name .parameter := by
  -- All three refusals lead to an offence, so none of them applies.
  unfold Check.parameter at checked
  split at checked
  · cases checked
  · rename_i fresh
    split at checked
    · cases checked
    · rename_i apart
      split at checked
      · cases checked
      · cases checked
        exact ⟨by simpa [Table.contains] using fresh, by simpa [Table.contains] using apart, rfl⟩

mutual

/-- The names of an expression in order are known. -/
private theorem names_of_expr {globals : Globals} {function : String} {scope : Scope} :
    ∀ {expr : Expr Span}, Check.expr globals function scope expr = .ok () →
      ∀ name ∈ expr.names, name ∈ scope.names ∨ name ∈ globals.constants.names
  | .literal _ _, _, name, member => by simp [Expr.names] at member
  | .name _ read, checked, name, member => by
    -- A name outside the scope and the constants is an offence.
    simp only [Expr.names, List.mem_singleton] at member
    subst member
    simp only [Check.expr] at checked
    split at checked
    · rename_i known
      simpa [Table.contains] using known
    · cases checked
  | .binary _ _ left right, checked, name, member => by
    -- Both operands are in order, and the names are those of both.
    rw [Check.expr, bind_eq_ok_iff] at checked
    obtain ⟨_, first, second⟩ := checked
    rcases List.mem_append.mp member with member | member
    · exact names_of_expr first name member
    · exact names_of_expr second name member
  | .call _ callee args, checked, name, member => by
    -- The callee is no name of the expression, so only the arguments count.
    simp only [Check.expr] at checked
    split at checked
    · cases checked
    · split at checked
      · exact names_of_exprs checked name member
      · cases checked
  | .group _ inner, checked, name, member => by
    rw [Check.expr] at checked
    exact names_of_expr checked name member

/-- The names of expressions in order are known. -/
private theorem names_of_exprs {globals : Globals} {function : String} {scope : Scope} :
    ∀ {args : List (Expr Span)}, Check.exprs globals function scope args = .ok () →
      ∀ name ∈ Expr.namesOfAll args, name ∈ scope.names ∨ name ∈ globals.constants.names
  | [], _, name, member => by simp [Expr.namesOfAll] at member
  | arg :: rest, checked, name, member => by
    rw [Check.exprs, bind_eq_ok_iff] at checked
    obtain ⟨_, first, second⟩ := checked
    rcases List.mem_append.mp member with member | member
    · exact names_of_expr first name member
    · exact names_of_exprs second name member

end

/-- A statement in order reads known names, and leaves its target known. -/
private theorem statement_enters {globals : Globals} {function : String} {scope next : Scope}
    {statement : Statement Span}
    (checked : Check.statement globals function scope statement = .ok next) :
    (∀ name ∈ statement.value.names, name ∈ scope.names ∨ name ∈ globals.constants.names) ∧
      (∀ target ∈ statement.target?, target ∉ globals.constants.names) ∧
      ∀ name, name ∈ next.names ↔ name ∈ scope.names ∨ statement.target? = some name := by
  -- A return leaves the scope as it is, and an assignment adds its target.
  cases statement with
  | returns span value =>
    rw [Check.statement, bind_eq_ok_iff] at checked
    obtain ⟨_, read, same⟩ := checked
    cases same
    exact ⟨names_of_expr read, by simp [Statement.target?], by simp [Statement.target?]⟩
  | assign span target value =>
    simp only [Check.statement] at checked
    split at checked
    · cases checked
    · rename_i own
      split at checked
      · cases checked
      · rw [bind_eq_ok_iff] at checked
        obtain ⟨_, read, same⟩ := checked
        refine ⟨names_of_expr read, ?_, ?_⟩
        · simpa [Statement.target?, Table.contains] using own
        · -- A known target stays where it is, and a new one comes in behind the others.
          cases same
          intro name
          split
          · rename_i known
            have listed : target ∈ scope.names := by simpa [Table.contains] using known
            simp only [Statement.target?, Option.some.injEq]
            exact ⟨.inl, fun either => either.elim id fun same => same ▸ listed⟩
          · rename_i unknown
            have fresh : target ∉ scope.names := by simpa [Table.contains] using unknown
            simp [Table.names_set_of_not_mem scope _ fresh, Statement.target?, eq_comm]

/-- Statements in order read names that were known before or have been assigned since. -/
private theorem statements_enter {globals : Globals} {function : String}
    {statements : List (Statement Span)} {start scope : Scope}
    (checked : statements.foldlM (Check.statement globals function) start = .ok scope) :
    (∀ before statement after, statements = before ++ statement :: after →
      ∀ name ∈ statement.value.names, name ∈ start.names ∨ name ∈ Statement.targets before ∨
        name ∈ globals.constants.names) ∧
      (∀ target ∈ Statement.targets statements, target ∉ globals.constants.names) ∧
      ∀ name, name ∈ scope.names ↔ name ∈ start.names ∨ name ∈ Statement.targets statements := by
  -- A name that an earlier statement has added counts as assigned for all later ones.
  induction statements generalizing start with
  | nil =>
    cases checked
    simp [Statement.targets]
  | cons first rest ih =>
    rw [List.foldlM_cons, bind_eq_ok_iff] at checked
    obtain ⟨next, here, later⟩ := checked
    obtain ⟨reads, own, enters⟩ := statement_enters here
    obtain ⟨laterReads, laterOwn, laterEnters⟩ := ih later
    -- What the first statement assigns to is an assigned name for all that follow.
    have listed : ∀ (more : List (Statement Span)) (name : String),
        name ∈ Statement.targets (first :: more) ↔
          first.target? = some name ∨ name ∈ Statement.targets more := by
      intro more name
      cases found : first.target? with
      | none => simp [Statement.targets, found]
      | some target => simp [Statement.targets, found, eq_comm]
    refine ⟨?_, ?_, ?_⟩
    · intro before statement after split name member
      cases before with
      | nil =>
        simp only [List.nil_append, List.cons.injEq] at split
        obtain ⟨rfl, rfl⟩ := split
        exact (reads name member).imp_right .inr
      | cons head before =>
        -- What the first statement leaves known is its start and its target.
        simp only [List.cons_append, List.cons.injEq] at split
        obtain ⟨rfl, rfl⟩ := split
        have known := laterReads before statement after rfl name member
        rw [enters] at known
        rw [listed]
        tauto
    · intro target member
      rcases (listed rest target).mp member with found | member
      · exact own target found
      · exact laterOwn target member
    · intro name
      rw [laterEnters, enters, listed, or_assoc]

end Check

/-- The scopes of functions are listed in their order, each as its parameters and body make it. -/
private theorem scopes_of_mapM {globals : Globals} {functions : List (Function Span)}
    {starts : List Scope}
    {entries : List (String × Scope)}
    (opened : List.Forall₂ (fun function start => Check.parameters globals function = .ok start)
      functions starts)
    (closed : List.Forall₂ (fun (item : Function Span × Scope) (entry : String × Scope) =>
        (do return (item.1.name, ← Check.body globals item.1 item.2)) = Except.ok entry)
      (functions.zip starts) entries) :
    entries.map Prod.fst = functions.map (·.name) ∧
      ∀ function ∈ functions, ∃ start scope, Check.parameters globals function = .ok start ∧
        Check.body globals function start = .ok scope ∧ (function.name, scope) ∈ entries := by
  -- Functions, starts and scopes go on side by side.
  induction opened generalizing entries with
  | nil =>
    cases closed
    simp
  | @cons function start functions starts here later ih =>
    cases closed with
    | @cons _ entry _ entries made others =>
      obtain ⟨scope, body, same⟩ := bind_eq_ok_iff.mp made
      cases same
      obtain ⟨names, found⟩ := ih others
      refine ⟨by simp [names], ?_⟩
      intro other member
      rcases List.mem_cons.mp member with rfl | member
      · exact ⟨start, scope, here, body, by simp⟩
      · obtain ⟨otherStart, otherScope, first, second, listed⟩ := found other member
        exact ⟨otherStart, otherScope, first, second, by simp [listed]⟩

/-- A program that passes the check is in order. -/
theorem Program.checked_of_check {program : Program Span} {env : Environment}
    (accepted : program.check = .ok env) : program.Checked env := by
  -- Each stage of the check succeeds, and each gives its part of what is known.
  simp only [Program.check, bind_eq_ok_iff] at accepted
  obtain ⟨constants, constantsChecked, arities, functionsChecked, starts, opened, -, -, scopes,
    closed, same⟩ := accepted
  cases same
  rw [mapM_eq_ok_iff] at opened closed
  -- The tables list constants and functions in their order.
  obtain ⟨entries, distinct, unreserved⟩ :=
    Check.foldlM_enters Check.constant_enters constantsChecked
  obtain ⟨functionEntries, functionsDistinct, functionsOwn⟩ :=
    Check.foldlM_enters (Check.function_enters constants) functionsChecked
  obtain ⟨scopeNames, found⟩ := scopes_of_mapM opened closed
  have constantNames : constants.names = program.constants.map (·.name) := by
    simp [Table.names, entries, Table.empty]
  have functionNames : arities.names = program.functions.map (·.name) := by
    simp [Table.names, functionEntries, Table.empty]
  have functionsNodup : (program.functions.map (·.name)).Nodup :=
    functionNames ▸ functionsDistinct (by simp [Table.names, Table.empty])
  refine ⟨by simpa [Table.empty] using entries,
    constantNames ▸ distinct (by simp [Table.names, Table.empty]), unreserved, functionsNodup,
    fun function member => constantNames ▸ functionsOwn function member, ?_⟩
  intro function member
  obtain ⟨start, scope, parameters, body, listed⟩ := found function member
  -- The scope is the one listed under the name of the function, for no other has that name.
  have scopeFound : Environment.scope ⟨⟨constants, arities⟩, ⟨scopes⟩⟩ function.name = scope := by
    have there : (Table.mk scopes).get? function.name = some scope :=
      Table.get?_of_mem (by simpa [Table.names, scopeNames] using functionsNodup) listed
    simp [Environment.scope, there]
  -- The body starts with the parameters as its scope.
  obtain ⟨paramEntries, paramsDistinct, paramsOwn⟩ :=
    Check.foldlM_enters (Check.parameter_enters ⟨constants, arities⟩ function.name) parameters
  have paramNames : start.names = function.params.map (·.name) := by
    simp [Table.names, paramEntries, Table.empty]
  obtain ⟨reads, targetsOwn, enters⟩ := Check.statements_enter body
  rw [paramNames] at enters reads
  exact ⟨paramNames ▸ paramsDistinct (by simp [Table.names, Table.empty]), paramsOwn, targetsOwn,
    reads, by rw [scopeFound]; exact enters⟩

end DoubleLang
