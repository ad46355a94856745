import DoubleLang.Frame
import DoubleLang.Proofs.Program.Offences
import Mathlib.Data.List.Basic

/-!
Trees that are alike but for names, notes and parentheses.

A copy of a tree has its names changed in one way throughout. Its notes may be any, and its
parentheses may be left out. So it reads the changed names in the same order, and has the same
literals; and where no two names are changed to the same one, it has the changed scope and is in
order if the tree is.
-/

namespace DoubleLang

variable {α β : Type}

section Relation

variable (change : String → String)

mutual

/-- A copy of an expression. -/
inductive Expr.Copy : Expr α → Expr β → Prop where
  | literal {note : α} {other : β} {text : String} :
      Expr.Copy (.literal note text) (.literal other text)
  | name {note : α} {other : β} {read : String} :
      Expr.Copy (.name note read) (.name other (change read))
  | binary {note : α} {other : β} {op : BinaryOp} {left right : Expr α} {first second : Expr β} :
      Expr.Copy left first → Expr.Copy right second →
        Expr.Copy (.binary note op left right) (.binary other op first second)
  | call {note : α} {other : β} {callee : String} {args : List (Expr α)} {copies : List (Expr β)} :
      Expr.CopyOfAll args copies → Expr.Copy (.call note callee args) (.call other callee copies)
  | group {note : α} {other : β} {inner : Expr α} {copy : Expr β} :
      Expr.Copy inner copy → Expr.Copy (.group note inner) (.group other copy)
  /-- Parentheses are left out. -/
  | ungrouped {note : α} {inner : Expr α} {copy : Expr β} :
      Expr.Copy inner copy → Expr.Copy (.group note inner) copy

/-- Copies of expressions in a row. -/
inductive Expr.CopyOfAll : List (Expr α) → List (Expr β) → Prop where
  | nil : Expr.CopyOfAll [] []
  | cons {arg : Expr α} {copy : Expr β} {rest : List (Expr α)} {copies : List (Expr β)} :
      Expr.Copy arg copy → Expr.CopyOfAll rest copies →
        Expr.CopyOfAll (arg :: rest) (copy :: copies)

end

/-- A copy of a statement; the name that it assigns to is changed like all others. -/
inductive Statement.Copy : Statement α → Statement β → Prop where
  | assign {note : α} {other : β} {target : String} {value : Expr α} {copy : Expr β} :
      value.Copy change copy → Statement.Copy (.assign note target value)
        (.assign other (change target) copy)
  | returns {note : α} {other : β} {value : Expr α} {copy : Expr β} :
      value.Copy change copy → Statement.Copy (.returns note value) (.returns other copy)

/-- A copy of a function, which keeps its own name. -/
structure Function.Copy (function : Function α) (copy : Function β) : Prop where
  name : copy.name = function.name
  params : copy.params.map (·.name) = (function.params.map (·.name)).map change
  body : List.Forall₂ (Statement.Copy change) function.body copy.body

end Relation

variable {change : String → String}

mutual

/-- A copy of an expression reads the changed names. -/
theorem Expr.Copy.names_eq : ∀ {tree : Expr α} {copy : Expr β}, tree.Copy change copy →
    copy.names = tree.names.map change
  | _, _, .literal => rfl
  | _, _, .name => rfl
  | _, _, .binary left right => by
    rw [Expr.names, left.names_eq, right.names_eq, Expr.names, List.map_append]
  | _, _, .call args => by rw [Expr.names, args.names_eq, Expr.names]
  | _, _, .group inner => by rw [Expr.names, inner.names_eq, Expr.names]
  | _, _, .ungrouped inner => by rw [inner.names_eq, Expr.names]

/-- Copies of expressions in a row read the changed names. -/
theorem Expr.CopyOfAll.names_eq : ∀ {args : List (Expr α)} {copies : List (Expr β)},
    Expr.CopyOfAll change args copies →
      Expr.namesOfAll copies = (Expr.namesOfAll args).map change
  | _, _, .nil => rfl
  | _, _, .cons first rest => by
    rw [Expr.namesOfAll, first.names_eq, rest.names_eq, Expr.namesOfAll, List.map_append]

end

mutual

/-- A copy of an expression has the same literals. -/
theorem Expr.Copy.literals_eq : ∀ {tree : Expr α} {copy : Expr β}, tree.Copy change copy →
    copy.literals = tree.literals
  | _, _, .literal => rfl
  | _, _, .name => rfl
  | _, _, .binary left right => by
    rw [Expr.literals, left.literals_eq, right.literals_eq, Expr.literals]
  | _, _, .call args => by rw [Expr.literals, args.literals_eq, Expr.literals]
  | _, _, .group inner => by rw [Expr.literals, inner.literals_eq, Expr.literals]
  | _, _, .ungrouped inner => by rw [inner.literals_eq, Expr.literals]

/-- Copies of expressions in a row have the same literals. -/
theorem Expr.CopyOfAll.literals_eq : ∀ {args : List (Expr α)} {copies : List (Expr β)},
    Expr.CopyOfAll change args copies → Expr.literalsOfAll copies = Expr.literalsOfAll args
  | _, _, .nil => rfl
  | _, _, .cons first rest => by
    rw [Expr.literalsOfAll, first.literals_eq, rest.literals_eq, Expr.literalsOfAll]

end

/-- A copy of an expression has as many literals. -/
theorem Expr.Copy.literalCount_eq {tree : Expr α} {copy : Expr β} (copied : tree.Copy change copy) :
    copy.literalCount = tree.literalCount := by
  rw [← Expr.length_literals, copied.literals_eq, Expr.length_literals]

/-- There are as many copies as expressions. -/
theorem Expr.CopyOfAll.length_eq : ∀ {args : List (Expr α)} {copies : List (Expr β)},
    Expr.CopyOfAll change args copies → copies.length = args.length
  | _, _, .nil => rfl
  | _, _, .cons _ rest => by rw [List.length_cons, rest.length_eq, List.length_cons]

namespace Statement.Copy

variable {statement : Statement α} {copy : Statement β}

/-- A copy of a statement has a copy of its expression. -/
theorem value (copied : statement.Copy change copy) : statement.value.Copy change copy.value := by
  -- Both forms of statement hold one expression.
  cases copied with
  | assign value => exact value
  | returns value => exact value

/-- A copy of a statement assigns to the changed name. -/
private theorem target?_eq (copied : statement.Copy change copy) :
    copy.target? = statement.target?.map change := by
  cases copied <;> rfl

/-- A copy of a return is a return. -/
private theorem isReturn_eq (copied : statement.Copy change copy) :
    copy.isReturn = statement.isReturn := by
  cases copied <;> rfl

variable {statements : List (Statement α)} {copies : List (Statement β)}

/-- Copies of statements assign to the changed names. -/
theorem targets_eq (copied : List.Forall₂ (Statement.Copy change) statements copies) :
    Statement.targets copies = (Statement.targets statements).map change := by
  -- Statement by statement: a copy has a target exactly if the statement has one.
  induction copied with
  | nil => rfl
  | @cons statement copy _ _ first _ ih =>
    have target := first.target?_eq
    unfold Statement.targets at ih ⊢
    cases found : statement.target? with
    | none =>
      rw [found] at target
      rw [List.filterMap_cons_none target, List.filterMap_cons_none found, ih]
    | some name =>
      rw [found] at target
      rw [List.filterMap_cons_some target, List.filterMap_cons_some found, ih, List.map_cons]

/-- The copies of the live statements are live, and no others. -/
theorem live (copied : List.Forall₂ (Statement.Copy change) statements copies) :
    List.Forall₂ (Statement.Copy change) (Statement.live statements) (Statement.live copies) := by
  -- The first return is copied to the first return.
  induction copied with
  | nil => exact .nil
  | @cons statement copy _ _ first _ ih =>
    rw [Statement.live, Statement.live, first.isReturn_eq]
    split
    · exact .cons first .nil
    · exact .cons first ih

/-- Copies of statements have the same literals. -/
theorem literals_eq (copied : List.Forall₂ (Statement.Copy change) statements copies) :
    copies.flatMap (·.value.literals) = statements.flatMap (·.value.literals) := by
  -- Statement by statement, for literals are not under any name.
  induction copied with
  | nil => rfl
  | cons first _ ih => rw [List.flatMap_cons, first.value.literals_eq, ih, List.flatMap_cons]

end Statement.Copy

namespace Function.Copy

variable {function : Function α} {copy : Function β}

/-- A copy of a function has as many parameters. -/
theorem arity_eq (copied : function.Copy change copy) : copy.arity = function.arity := by
  have lengths := congrArg List.length copied.params
  simpa [Function.arity] using lengths

/-- A copy of a function has copies of its live statements. -/
theorem live (copied : function.Copy change copy) :
    List.Forall₂ (Statement.Copy change) function.live copy.live :=
  Statement.Copy.live copied.body

/-- A copy of a function has the same literals. -/
theorem literals_eq (copied : function.Copy change copy) : copy.literals = function.literals :=
  Statement.Copy.literals_eq copied.body

end Function.Copy

namespace Table

/-- A table with its names changed. -/
def rename (change : String → String) (table : Table α) : Table α :=
  ⟨table.entries.map fun entry => (change entry.1, entry.2)⟩

/-- A table whose names stay as they are. -/
@[simp] theorem rename_id (table : Table α) : table.rename id = table := by
  simp [rename]

/-- Changing names loses no entry. -/
@[simp] theorem length_rename (change : String → String) (table : Table α) :
    (table.rename change).entries.length = table.entries.length := by
  simp [rename]

variable {change : String → String} (injective : Function.Injective change)
include injective

/-- A table with changed names has a changed name exactly if it had the name. -/
theorem contains_rename (table : Table α) (name : String) :
    (table.rename change).contains (change name) = table.contains name := by
  -- The names of the table are changed one by one, and no two become one.
  have names : (table.rename change).names = table.names.map change := by
    simp [rename, Table.names, Function.comp_def]
  rw [Bool.eq_iff_iff, contains_iff, contains_iff, names, List.mem_map_of_injective injective]

/-- A changed name has the value of the name. -/
theorem get?_rename (table : Table α) (name : String) :
    (table.rename change).get? (change name) = table.get? name := by
  -- Entries are tried in order, and a changed name meets the same one first.
  obtain ⟨entries⟩ := table
  simp only [rename, get?]
  induction entries with
  | nil => rfl
  | cons entry rest ih =>
    obtain ⟨known, value⟩ := entry
    have compared : (change name == change known) = (name == known) := by
      rw [Bool.eq_iff_iff, beq_iff_eq, beq_iff_eq, injective.eq_iff]
    simp only [List.map_cons, List.lookup_cons, compared, ih]

/-- Setting a changed name. -/
theorem set_rename (table : Table α) (name : String) (value : α) :
    (table.rename change).set (change name) value = (table.set name value).rename change := by
  -- Entries are tried in order, so the value goes to the same place or to the end of both.
  obtain ⟨entries⟩ := table
  simp only [rename, set, Table.mk.injEq]
  induction entries with
  | nil => rfl
  | cons entry rest ih =>
    obtain ⟨known, old⟩ := entry
    simp only [List.map_cons, setIn, injective.eq_iff, ih]
    split <;> rfl

end Table

/-- Changing names before or after leaving out those that have come up makes no difference. -/
private theorem eraseDups_map_of_injective (injective : Function.Injective change)
    (names : List String) :
    (names.map change).eraseDups = names.eraseDups.map change := by
  -- Behind the first name, those that are left are fewer.
  induction count : names.length using Nat.strongRecOn generalizing names with
  | ind _ ih =>
    cases names with
    | nil => rfl
    | cons name rest =>
      -- Names that differ stay different, so the same ones fall to the first.
      have others :
          (fun other => !other == change name) ∘ change = fun other => !other == name := by
        funext other
        rw [Function.comp_apply, Bool.eq_iff_iff]
        simp [injective.eq_iff]
      have fewer := List.length_filter_le (fun other => !other == name) rest
      rw [List.length_cons] at count
      rw [List.map_cons, List.eraseDups_cons, List.eraseDups_cons, List.filter_map, others,
        ih _ (by omega) _ rfl, List.map_cons]

section Checked

variable {function copy : Function Span}

/-- A copy of a function has the scope of the function, under the changed names. -/
theorem Function.Copy.scopeBehind_eq (copied : function.Copy change copy)
    (injective : Function.Injective change) :
    copy.scopeBehind copy.body = (function.scopeBehind function.body).rename change := by
  -- Parameters come first, then those targets that are no parameters.
  have roles (params : List (Parameter Span)) :
      params.map (fun parameter => (parameter.name, Role.parameter)) =
        (params.map (·.name)).map (·, Role.parameter) := by
    simp [Function.comp_def]
  -- A target is kept apart from the parameters exactly if the name was.
  have apart :
      (fun target => decide (target ∉ (function.params.map (·.name)).map change)) ∘ change =
        fun target => decide (target ∉ function.params.map (·.name)) := by
    funext target
    simp only [Function.comp_apply, List.mem_map_of_injective injective]
  have locals : copy.locals copy.body = (function.locals function.body).map change := by
    rw [Function.locals, copied.params, Statement.Copy.targets_eq copied.body, List.filter_map,
      apart, eraseDups_map_of_injective injective, Function.locals]
  rw [Function.scopeBehind, roles, copied.params, locals, Function.scopeBehind, roles, Table.rename]
  simp [Function.comp_def]

mutual

/-- A copy of an expression in order is in order, if the changed names are known too. -/
theorem Expr.Copy.offences_eq_nil {program : Program Span} {name : String}
    {known others : List String} (knows : ∀ read ∈ known, change read ∈ others)
    (constants : ∀ read ∈ program.constants.map (·.name),
      change read ∈ program.constants.map (·.name)) :
    ∀ {tree copy : Expr Span}, tree.Copy change copy →
      tree.offences program name known = [] → copy.offences program name others = []
  | _, _, .literal, _ => rfl
  | _, _, .name, passed => by
    simp only [Expr.offences, ite_eq_left_iff, reduceCtorEq, imp_false, not_not] at passed ⊢
    exact passed.imp (knows _) (constants _)
  | _, _, .binary left right, passed => by
    rw [Expr.offences, List.append_eq_nil_iff] at passed ⊢
    exact ⟨left.offences_eq_nil knows constants passed.1,
      right.offences_eq_nil knows constants passed.2⟩
  | _, _, .call args, passed => by
    rw [Expr.offences, List.append_eq_nil_iff, Program.callOffences_eq_nil_iff] at passed ⊢
    -- A call is judged by its name, which a copy keeps, and by the number of its arguments.
    rw [args.length_eq]
    exact ⟨passed.1, args.offences_eq_nil knows constants passed.2⟩
  | _, _, .group inner, passed => inner.offences_eq_nil knows constants passed
  | _, _, .ungrouped inner, passed => inner.offences_eq_nil knows constants passed

/-- Copies of expressions in order are in order. -/
theorem Expr.CopyOfAll.offences_eq_nil {program : Program Span} {name : String}
    {known others : List String} (knows : ∀ read ∈ known, change read ∈ others)
    (constants : ∀ read ∈ program.constants.map (·.name),
      change read ∈ program.constants.map (·.name)) :
    ∀ {args copies : List (Expr Span)}, Expr.CopyOfAll change args copies →
      Expr.offencesOfAll program name known args = [] →
        Expr.offencesOfAll program name others copies = []
  | _, _, .nil, _ => rfl
  | _, _, .cons first rest, passed => by
    rw [Expr.offencesOfAll, List.append_eq_nil_iff] at passed ⊢
    exact ⟨first.offences_eq_nil knows constants passed.1,
      rest.offences_eq_nil knows constants passed.2⟩

end

end Checked

end DoubleLang
