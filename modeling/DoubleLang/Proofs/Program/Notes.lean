import DoubleLang.Proofs.Program.Offences

/-!
Trees under a change of their notes.

A note says where a node was read and nothing else. The rules name the same offences whatever the
notes are, each at the note of the node that commits it, and give the same environment.
-/

namespace DoubleLang

section Tree

variable {α β : Type} (change : α → β)

mutual

/-- An expression with its notes changed. -/
def Expr.mapNotes : Expr α → Expr β
  | .literal note text => .literal (change note) text
  | .name note read => .name (change note) read
  | .binary note op left right => .binary (change note) op left.mapNotes right.mapNotes
  | .call note callee args => .call (change note) callee (Expr.mapNotesOfAll args)
  | .group note inner => .group (change note) inner.mapNotes

/-- Expressions with their notes changed. -/
def Expr.mapNotesOfAll : List (Expr α) → List (Expr β)
  | [] => []
  | arg :: rest => arg.mapNotes :: Expr.mapNotesOfAll rest

end

/-- A statement with its notes changed. -/
def Statement.mapNotes : Statement α → Statement β
  | .assign note target value => .assign (change note) target (value.mapNotes change)
  | .returns note value => .returns (change note) (value.mapNotes change)

/-- A parameter with its note changed. -/
def Parameter.mapNotes (parameter : Parameter α) : Parameter β :=
  ⟨change parameter.note, parameter.name⟩

/-- A constant with its note changed. -/
def Constant.mapNotes (constant : Constant α) : Constant β :=
  ⟨change constant.note, constant.name, constant.value⟩

/-- A function with its notes changed. -/
def Function.mapNotes (function : Function α) : Function β :=
  ⟨change function.note, function.name, function.params.map (Parameter.mapNotes change),
    function.body.map (Statement.mapNotes change)⟩

/-- A program with its notes changed. -/
def Program.mapNotes (program : Program α) : Program β :=
  ⟨change program.note, program.file, program.constants.map (Constant.mapNotes change),
    program.functions.map (Function.mapNotes change)⟩

/-- Expressions in a row are changed one by one. -/
theorem Expr.mapNotesOfAll_eq (args : List (Expr α)) :
    Expr.mapNotesOfAll change args = args.map (Expr.mapNotes change) := by
  -- Changing a row is written as a recursion of its own, for the nested type needs it.
  induction args with
  | nil => rfl
  | cons arg rest ih => rw [Expr.mapNotesOfAll, ih, List.map_cons]

/-- The note of an expression is changed as those inside it are. -/
@[simp] theorem Expr.note_mapNotes (expr : Expr α) :
    (expr.mapNotes change).note = change expr.note := by
  cases expr <;> rfl

/-- No expression of a row is lost. -/
@[simp] theorem Expr.length_mapNotesOfAll (args : List (Expr α)) :
    (Expr.mapNotesOfAll change args).length = args.length := by
  simp [Expr.mapNotesOfAll_eq]

/-- The expression of a statement has its notes changed. -/
@[simp] theorem Statement.value_mapNotes (statement : Statement α) :
    (statement.mapNotes change).value = statement.value.mapNotes change := by
  cases statement <;> rfl

/-- A statement keeps its target. -/
@[simp] theorem Statement.target?_mapNotes (statement : Statement α) :
    (statement.mapNotes change).target? = statement.target? := by
  cases statement <;> rfl

/-- Statements keep their targets. -/
@[simp] theorem Statement.targets_mapNotes (statements : List (Statement α)) :
    Statement.targets (statements.map (Statement.mapNotes change)) =
      Statement.targets statements := by
  -- A statement keeps its target.
  simp [Statement.targets, List.filterMap_map]

/-- Parameters keep their names. -/
@[simp] theorem Parameter.names_mapNotes (params : List (Parameter α)) :
    (params.map (Parameter.mapNotes change)).map (·.name) = params.map (·.name) := by
  simp [Parameter.mapNotes]

/-- Constants keep their names. -/
@[simp] theorem Constant.names_mapNotes (constants : List (Constant α)) :
    (constants.map (Constant.mapNotes change)).map (·.name) = constants.map (·.name) := by
  simp [Constant.mapNotes]

/-- Functions keep their names. -/
@[simp] theorem Function.names_mapNotes (functions : List (Function α)) :
    (functions.map (Function.mapNotes change)).map (·.name) = functions.map (·.name) := by
  simp [Function.mapNotes]

/-- A function keeps its name. -/
@[simp] theorem Function.name_mapNotes (function : Function α) :
    (function.mapNotes change).name = function.name := rfl

/-- The parameters of a function have their notes changed. -/
@[simp] theorem Function.params_mapNotes (function : Function α) :
    (function.mapNotes change).params = function.params.map (Parameter.mapNotes change) := rfl

/-- The statements of a function have their notes changed. -/
@[simp] theorem Function.body_mapNotes (function : Function α) :
    (function.mapNotes change).body = function.body.map (Statement.mapNotes change) := rfl

/-- The constants of a program have their notes changed. -/
@[simp] theorem Program.constants_mapNotes (program : Program α) :
    (program.mapNotes change).constants = program.constants.map (Constant.mapNotes change) := rfl

/-- The functions of a program have their notes changed. -/
@[simp] theorem Program.functions_mapNotes (program : Program α) :
    (program.mapNotes change).functions = program.functions.map (Function.mapNotes change) := rfl

/-- A function keeps the number of its parameters. -/
@[simp] theorem Function.arity_mapNotes (function : Function α) :
    (function.mapNotes change).arity = function.arity := by
  simp [Function.arity, Function.mapNotes]

section Twice

variable {γ : Type} (again : β → γ)

mutual

/-- Notes that are changed twice are changed once by both changes. -/
theorem Expr.mapNotes_mapNotes :
    ∀ expr : Expr α, (expr.mapNotes change).mapNotes again = expr.mapNotes (again ∘ change)
  | .literal _ _ => rfl
  | .name _ _ => rfl
  | .binary _ _ left right => by
    simp [Expr.mapNotes, Expr.mapNotes_mapNotes left, Expr.mapNotes_mapNotes right]
  | .call _ _ args => by simp [Expr.mapNotes, Expr.mapNotesOfAll_mapNotesOfAll args]
  | .group _ inner => by simp [Expr.mapNotes, Expr.mapNotes_mapNotes inner]

/-- Notes that are changed twice are changed once by both changes, for expressions in a row. -/
private theorem Expr.mapNotesOfAll_mapNotesOfAll :
    ∀ args : List (Expr α), Expr.mapNotesOfAll again (Expr.mapNotesOfAll change args) =
      Expr.mapNotesOfAll (again ∘ change) args
  | [] => rfl
  | arg :: rest => by
    simp [Expr.mapNotesOfAll, Expr.mapNotes_mapNotes arg, Expr.mapNotesOfAll_mapNotesOfAll rest]

end

/-- Notes that are changed twice are changed once by both changes, for statements. -/
theorem Statement.mapNotes_mapNotes (statement : Statement α) :
    (statement.mapNotes change).mapNotes again = statement.mapNotes (again ∘ change) := by
  cases statement <;> simp [Statement.mapNotes, Expr.mapNotes_mapNotes]

/-- Notes that are changed twice are changed once by both changes, for programs. -/
theorem Program.mapNotes_mapNotes (program : Program α) :
    (program.mapNotes change).mapNotes again = program.mapNotes (again ∘ change) := by
  simp [Program.mapNotes, Function.mapNotes, Constant.mapNotes, Parameter.mapNotes,
    Statement.mapNotes_mapNotes]

end Twice

/-- A function is found by its name, whatever its notes are. -/
private theorem Function.find?_mapNotes (functions : List (Function α)) (wanted : String) :
    (functions.map (Function.mapNotes change)).find? (·.name == wanted) =
      (functions.find? (·.name == wanted)).map (Function.mapNotes change) := by
  rw [List.find?_map]
  rfl

end Tree

section Rules

variable (change : Span → Span)

/-- An offence at another place. -/
def Offence.mapSpan (offence : Offence) : Offence :=
  ⟨offence.violation, change offence.span⟩

namespace Offence

/-- The first of offences at other places is the first offence, at its other place. -/
private theorem verdict_map {α : Type} (offences : List Offence) (value : α) :
    verdict (offences.map (mapSpan change)) value =
      (verdict offences value).mapError (mapSpan change) := by
  -- The verdict rests on the first offence, and that is first on both sides.
  cases offences with
  | nil => rfl
  | cons first rest => rfl

/-- A rule that finds the same in changed items finds the same in each of them in turn. -/
private theorem inTurn_map {α : Type} {rule changedRule : List α → α → List Offence}
    {changed : α → α}
    {image : Offence → Offence}
    (agrees : ∀ earlier item, changedRule (earlier.map changed) (changed item) =
      (rule earlier item).map image) (earlier items : List α) :
    inTurn changedRule (earlier.map changed) (items.map changed) =
      (inTurn rule earlier items).map image := by
  -- The items before the next one are changed like all others.
  induction items generalizing earlier with
  | nil => rfl
  | cons item rest ih =>
    have later := ih (earlier ++ [item])
    rw [List.map_append, List.map_singleton] at later
    rw [List.map_cons, inTurn, agrees, later, inTurn, List.map_append]

/-- A rule that finds the very same in changed items. -/
theorem inTurn_congr {α : Type} {rule changedRule : List α → α → List Offence} {changed : α → α}
    (agrees : ∀ earlier item, changedRule (earlier.map changed) (changed item) = rule earlier item)
    (items : List α) : inTurn changedRule [] (items.map changed) = inTurn rule [] items := by
  -- Finding the very same is finding it at a place that is not changed.
  have still (earlier : List α) (item : α) : changedRule (earlier.map changed) (changed item) =
      (rule earlier item).map id := by
    rw [agrees, List.map_id]
  simpa using inTurn_map still [] items

end Offence

open Offence

/-- A constant breaks the same rules, at its other place. -/
theorem Constant.offences_mapNotes (earlier : List (Constant Span)) (constant : Constant Span) :
    (constant.mapNotes change).offences (earlier.map (Constant.mapNotes change)) =
      (constant.offences earlier).map (mapSpan change) := by
  -- The rule asks for names only.
  simp only [Constant.offences, Constant.names_mapNotes, apply_ite (List.map (mapSpan change))]
  rfl

/-- The name of a function breaks the same rules, at its other place. -/
private theorem Function.nameOffences_mapNotes (constants : List (Constant Span))
    (earlier : List (Function Span)) (function : Function Span) :
    (function.mapNotes change).nameOffences (constants.map (Constant.mapNotes change))
        (earlier.map (Function.mapNotes change)) =
      (function.nameOffences constants earlier).map (mapSpan change) := by
  -- A name is compared with names, of constants and of functions.
  simp only [Function.nameOffences, Constant.names_mapNotes, Function.names_mapNotes,
    apply_ite (List.map (mapSpan change))]
  rfl

/-- A parameter breaks the same rules, at its other place. -/
theorem Parameter.offences_mapNotes (program : Program Span) (function : Function Span)
    (earlier : List (Parameter Span)) (parameter : Parameter Span) :
    (parameter.mapNotes change).offences (program.mapNotes change) (function.mapNotes change)
        (earlier.map (Parameter.mapNotes change)) =
      (parameter.offences program function earlier).map (mapSpan change) := by
  -- A name is compared with names: of constants, functions and parameters before.
  simp only [Parameter.offences, Program.mapNotes, Constant.names_mapNotes, Function.names_mapNotes,
    Parameter.names_mapNotes, apply_ite (List.map (mapSpan change))]
  rfl

/-- What is wrong with the entry function is still wrong, at its other place. -/
private theorem Function.mainOffence?_mapNotes (function : Function Span) :
    (function.mapNotes change).mainOffence? = function.mainOffence?.map (mapSpan change) := by
  -- The rule asks for the name and for whether there are parameters.
  simp only [Function.mainOffence?, Function.mapNotes, ne_eq, List.map_eq_nil_iff,
    apply_ite (Option.map (mapSpan change))]
  rfl

/-- A call breaks the same rules, at its other place. -/
private theorem Program.callOffences_mapNotes (program : Program Span) (function callee : String)
    (arguments : Nat) (span : Span) :
    (program.mapNotes change).callOffences function callee arguments (change span) =
      (program.callOffences function callee arguments span).map (mapSpan change) := by
  -- The function that is called is found under its name.
  simp only [Program.callOffences, Program.mapNotes, Function.find?_mapNotes]
  cases program.functions.find? (·.name == callee) with
  | none => rfl
  | some declared =>
    simp only [Option.map_some, Function.arity_mapNotes, apply_ite (List.map (mapSpan change))]
    rfl

mutual

/-- The offences of an expression are found in the same order, each at the changed note. -/
theorem Expr.offences_mapNotes (program : Program Span) (function : String)
    (known : List String) : ∀ expr : Expr Span,
      (expr.mapNotes change).offences (program.mapNotes change) function known =
        (expr.offences program function known).map (mapSpan change)
  | .literal _ _ => rfl
  | .name span read => by
    -- Whether a name is known does not depend on where it stands; only the offence does.
    simp only [Expr.mapNotes, Expr.offences, Program.mapNotes, Constant.names_mapNotes,
      apply_ite (List.map (mapSpan change))]
    rfl
  | .binary _ _ left right => by
    rw [Expr.mapNotes, Expr.offences, offences_mapNotes program function known left,
      offences_mapNotes program function known right, Expr.offences, List.map_append]
  | .call span callee args => by
    rw [Expr.mapNotes, Expr.offences, Expr.length_mapNotesOfAll, Program.callOffences_mapNotes,
      offencesOfAll_mapNotes program function known args, Expr.offences, List.map_append]
  | .group _ inner => by
    rw [Expr.mapNotes, Expr.offences, offences_mapNotes program function known inner,
      Expr.offences]

/-- The offences of expressions in a row are found in the same order. -/
private theorem Expr.offencesOfAll_mapNotes (program : Program Span) (function : String)
    (known : List String) : ∀ args : List (Expr Span),
      Expr.offencesOfAll (program.mapNotes change) function known
          (Expr.mapNotesOfAll change args) =
        (Expr.offencesOfAll program function known args).map (mapSpan change)
  | [] => rfl
  | arg :: rest => by
    rw [Expr.mapNotesOfAll, Expr.offencesOfAll, offences_mapNotes program function known arg,
      offencesOfAll_mapNotes program function known rest, Expr.offencesOfAll, List.map_append]

end

/-- A target breaks the same rules, at its other place. -/
private theorem Statement.targetOffences_mapNotes (program : Program Span)
    (statement : Statement Span) :
    (statement.mapNotes change).targetOffences (program.mapNotes change) =
      (statement.targetOffences program).map (mapSpan change) := by
  -- Only an assignment has a target, and it is compared with names.
  cases statement with
  | returns span value => rfl
  | assign span target value =>
    simp only [Statement.mapNotes, Statement.targetOffences, Program.mapNotes,
      Constant.names_mapNotes, Function.names_mapNotes, apply_ite (List.map (mapSpan change))]
    rfl

/-- A statement breaks the same rules, at the other places of its parts. -/
theorem Statement.offences_mapNotes (program : Program Span) (function : Function Span)
    (earlier : List (Statement Span)) (statement : Statement Span) :
    (statement.mapNotes change).offences (program.mapNotes change) (function.mapNotes change)
        (earlier.map (Statement.mapNotes change)) =
      (statement.offences program function earlier).map (mapSpan change) := by
  -- What is known before a statement are names, and those stay.
  have params : ((function.mapNotes change).params.map (·.name)) =
      function.params.map (·.name) := Parameter.names_mapNotes change function.params
  rw [Statement.offences, Statement.targetOffences_mapNotes, Statement.value_mapNotes, params,
    Statement.targets_mapNotes, Expr.offences_mapNotes, Statement.offences, List.map_append]
  rfl

namespace Program

/-- The offences of a program are the same in the same order, each at the changed note. -/
theorem offences_mapNotes (program : Program Span) :
    (program.mapNotes change).offences = program.offences.map (mapSpan change) := by
  -- Each of the five parts of the list goes through declarations that keep their names.
  have constants := inTurn_map (Constant.offences_mapNotes change) [] program.constants
  have functions := inTurn_map
    (Function.nameOffences_mapNotes change program.constants) [] program.functions
  have params (function : Function Span) :=
    inTurn_map (Parameter.offences_mapNotes change program function) [] function.params
  have bodies (function : Function Span) :=
    inTurn_map (Statement.offences_mapNotes change program function) [] function.body
  simp only [List.map_nil] at constants functions params bodies
  simp only [offences, constants_mapNotes, functions_mapNotes, List.map_append, constants,
    functions, List.flatMap_map, Function.params_mapNotes, params, Function.body_mapNotes, bodies,
    List.map_flatMap, List.filterMap_map, List.map_filterMap, Function.comp_def,
    Function.mainOffence?_mapNotes]

/-- Notes have no part in the names of a program. -/
private theorem listing_mapNotes (program : Program Span) :
    (program.mapNotes change).listing = program.listing := by
  -- Scopes are made of names and roles.
  have scopes (function : Function Span) :
      (function.mapNotes change).scopeBehind (function.body.map (Statement.mapNotes change)) =
        function.scopeBehind function.body := by
    simp [Function.scopeBehind, Function.locals, Parameter.mapNotes, Function.comp_def]
  simp only [listing, globals, Table.ofMembers, constants_mapNotes, functions_mapNotes,
    List.map_map, Function.comp_def, Function.body_mapNotes, scopes, Function.arity_mapNotes]
  rfl

/-- A program is judged alike whatever its notes are, and an offence is found at the same node. -/
theorem check_mapNotes (program : Program Span) :
    (program.mapNotes change).check = program.check.mapError (mapSpan change) := by
  rw [check_eq_verdict, offences_mapNotes, listing_mapNotes, verdict_map, check_eq_verdict]

end Program

end Rules

end DoubleLang
