import DoubleLang.Proofs.Program.Copies
import DoubleLang.Proofs.Program.Reordering
import Mathlib.Data.Set.Function
import Mathlib.Logic.Equiv.Basic

/-!
Functions with other names for what is their own.

The own names of a function are its parameters and the names that it assigns to. They may be changed
to any others, as long as two of them do not become one and none becomes that of a constant or of a
function: the program is in order as before.
-/

namespace DoubleLang

section Tree

variable {α : Type}

mutual

/-- An expression with the names that it reads changed. -/
def Expr.rename (change : String → String) : Expr α → Expr α
  | .literal note text => .literal note text
  | .name note read => .name note (change read)
  | .binary note op left right => .binary note op (left.rename change) (right.rename change)
  | .call note callee args => .call note callee (Expr.renameOfAll change args)
  | .group note inner => .group note (inner.rename change)

/-- Expressions with the names that they read changed. -/
def Expr.renameOfAll (change : String → String) : List (Expr α) → List (Expr α)
  | [] => []
  | arg :: rest => arg.rename change :: Expr.renameOfAll change rest

end

/-- A statement with the names that it reads and assigns to changed. -/
def Statement.rename (change : String → String) : Statement α → Statement α
  | .assign note target value => .assign note (change target) (value.rename change)
  | .returns note value => .returns note (value.rename change)

/-- The names of a function's own: its parameters, and all that it assigns to. -/
def Function.ownNames (function : Function α) : List String :=
  function.params.map (·.name) ++ Statement.targets function.body

/-- A change of the own names of a function, which leaves all others as they are. -/
def Function.ownChange (function : Function α) (change : String → String) (name : String) :
    String :=
  if name ∈ function.ownNames then change name else name

/-- A function with its own names changed, wherever they stand. -/
def Function.rename (change : String → String) (function : Function α) : Function α :=
  { function with
    params := function.params.map fun param =>
      { param with name := function.ownChange change param.name }
    body := function.body.map (Statement.rename (function.ownChange change)) }

end Tree

/-- A change of names that keeps some of them apart is, for these, one that keeps all apart. -/
theorem exists_injective_extending {names : List String} {change : String → String}
    (apart : Set.InjOn change {name | name ∈ names}) :
    ∃ whole : String → String, Function.Injective whole ∧
      ∀ name ∈ names, whole name = change name := by
  -- A permutation that is right for the later names is made right for the first by one exchange.
  suffices ∃ whole : Equiv.Perm String, ∀ name ∈ names, whole name = change name from
    this.elim fun whole agrees => ⟨whole, whole.injective, agrees⟩
  induction names with
  | nil => exact ⟨Equiv.refl _, by simp⟩
  | cons first rest ih =>
    obtain ⟨whole, agrees⟩ := ih (apart.mono fun name member => List.mem_cons_of_mem _ member)
    by_cases known : first ∈ rest
    · exact ⟨whole, by simpa [agrees first known] using agrees⟩
    · refine ⟨whole.trans (Equiv.swap (whole first) (change first)), ?_⟩
      rw [List.forall_mem_cons]
      refine ⟨by simp, fun name member => ?_⟩
      -- The later names are changed to others than the first is, before and after the exchange.
      have differ : name ≠ first := fun same => known (same ▸ member)
      have before : change name ≠ whole first := by
        rw [← agrees name member]
        exact whole.injective.ne differ
      have after : change name ≠ change first := fun same =>
        differ (apart (List.mem_cons_of_mem _ member) List.mem_cons_self same)
      rw [Equiv.trans_apply, agrees name member, Equiv.swap_apply_of_ne_of_ne before after]

section Copies

variable {α : Type} {own whole : String → String}

mutual

/-- An expression with changed names is a copy. -/
theorem Expr.copy_rename : ∀ (expr : Expr α), (∀ name ∈ expr.names, own name = whole name) →
    expr.Copy whole (expr.rename own)
  | .literal _ _, _ => .literal
  | .name _ read, agrees => by
    rw [Expr.rename, agrees read (List.mem_singleton_self read)]
    exact .name
  | .binary _ _ left right, agrees => by
    rw [Expr.names, List.forall_mem_append] at agrees
    exact .binary (copy_rename left agrees.1) (copy_rename right agrees.2)
  | .call _ _ args, agrees => .call (copyOfAll_rename args agrees)
  | .group _ inner, agrees => .group (copy_rename inner agrees)

/-- Expressions in a row with changed names are copies. -/
private theorem Expr.copyOfAll_rename : ∀ (args : List (Expr α)),
    (∀ name ∈ Expr.namesOfAll args, own name = whole name) →
      Expr.CopyOfAll whole args (Expr.renameOfAll own args)
  | [], _ => .nil
  | arg :: rest, agrees => by
    rw [Expr.namesOfAll, List.forall_mem_append] at agrees
    exact .cons (copy_rename arg agrees.1) (copyOfAll_rename rest agrees.2)

end

/-- A function with its own names changed is a copy, if the change of all names agrees on those that
stand in it. -/
theorem Function.copy_rename {function : Function α} {change : String → String}
    (agrees : ∀ name ∈ function.ownNames, whole name = change name)
    (others : ∀ statement ∈ function.body, ∀ name ∈ statement.value.names,
      name ∉ function.ownNames → whole name = name) :
    function.Copy whole (function.rename change) := by
  -- On the names of the function the two changes do the same.
  have own {name : String} (member : name ∈ function.ownNames) :
      function.ownChange change name = whole name := by
    rw [Function.ownChange, if_pos member, agrees name member]
  refine ⟨rfl, ?_, ?_⟩
  · simp only [Function.rename, List.map_map]
    exact List.map_congr_left fun param member =>
      own (List.mem_append_left _ (List.mem_map_of_mem member))
  · rw [Function.rename, List.forall₂_map_right_iff, List.forall₂_same]
    intro statement member
    have read : ∀ name ∈ statement.value.names,
        function.ownChange change name = whole name := by
      intro name asked
      by_cases listed : name ∈ function.ownNames
      · exact own listed
      · rw [Function.ownChange, if_neg listed, others statement member name asked listed]
    cases statement with
    | returns note value => exact .returns (value.copy_rename read)
    | assign note target value =>
      have assigned : target ∈ function.ownNames :=
        List.mem_append_right _ (List.mem_filterMap.mpr ⟨_, member, rfl⟩)
      rw [Statement.rename, own assigned]
      exact .assign (value.copy_rename read)

end Copies

/-- A rule that finds nothing in items finds nothing in related ones, if it does so for each. -/
private theorem Offence.inTurn_eq_nil_of_forall₂ {α β : Type} {rule : List α → α → List Offence}
    {otherRule : List β → β → List Offence} {Related : α → β → Prop}
    (agrees : ∀ {earlier others item other}, List.Forall₂ Related earlier others →
      Related item other → rule earlier item = [] → otherRule others other = [])
    {earlier items : List α} {others twins : List β}
    (before : List.Forall₂ Related earlier others) (related : List.Forall₂ Related items twins)
    (passed : inTurn rule earlier items = []) : inTurn otherRule others twins = [] := by
  -- The items before the next one are related like all others.
  induction related generalizing earlier others with
  | nil => rfl
  | cons first _ ih =>
    rw [inTurn, List.append_eq_nil_iff] at passed ⊢
    exact ⟨agrees before first passed.1, ih (List.rel_append before (.cons first .nil)) passed.2⟩

section Checked

variable {program : Program Span} {before after : List (Function Span)}
  {function copy : Function Span} {change : String → String}

/-- The own names of a copy are the changed ones. -/
theorem Function.Copy.ownNames_eq (copied : function.Copy change copy) :
    copy.ownNames = function.ownNames.map change := by
  rw [Function.ownNames, copied.params, Statement.Copy.targets_eq copied.body, Function.ownNames,
    List.map_append]

/-- A program with a copy of one of its functions declares the same names. -/
private theorem Program.sameNames_of_copy (split : program.functions = before ++ function :: after)
    (copied : function.Copy change copy) :
    (program.withDeclarations program.constants (before ++ copy :: after)).SameNames program := by
  -- A copy has the name of its function and takes as many arguments.
  refine ⟨fun name => Iff.rfl, fun name => ?_, fun name => ?_⟩
  · simp [withDeclarations, split, copied.name]
  · -- Both programs have the same table of arities.
    rw [← Table.get?_ofMembers, ← Table.get?_ofMembers]
    simp [withDeclarations, split, Table.ofMembers, copied.name, copied.arity_eq]

/-- Parameters of a copy have no offences, if its own names are apart from those of the program. -/
private theorem Function.Copy.parameterOffences_eq_nil (copied : function.Copy change copy)
    (injective : Function.Injective change)
    (free : ∀ name ∈ copy.ownNames, name ∉ program.constants.map (·.name) ∧
      name ∉ program.functions.map (·.name))
    (passed : Offence.inTurn (Parameter.offences program function) [] function.params = []) :
    Offence.inTurn (Parameter.offences program copy) [] copy.params = [] := by
  -- Changed names are as distinct as the names were.
  rw [Program.parameterOffences_eq_nil_iff] at passed ⊢
  refine ⟨?_, fun param member => free _ (List.mem_append_left _ (List.mem_map_of_mem member))⟩
  rw [copied.params]
  exact passed.1.map injective

/-- The body of a copy has no offences, if its own names are apart from those of the program. -/
private theorem Function.Copy.bodyOffences_eq_nil (copied : function.Copy change copy)
    (constants : ∀ name ∈ program.constants.map (·.name), change name = name)
    (free : ∀ name ∈ copy.ownNames, name ∉ program.constants.map (·.name) ∧
      name ∉ program.functions.map (·.name))
    (passed : Offence.inTurn (Statement.offences program function) [] function.body = []) :
    Offence.inTurn (Statement.offences program copy) [] copy.body = [] := by
  -- Each statement is judged beside its copy, with those before it as copies too.
  have related := (List.forall₂_and_left function.body copy.body).mpr ⟨fun _ => id, copied.body⟩
  refine Offence.inTurn_eq_nil_of_forall₂ ?_ .nil related passed
  intro earlier others statement twin before ⟨member, same⟩ passed
  rw [Statement.offences, List.append_eq_nil_iff] at passed ⊢
  constructor
  · cases same with
    | returns _ => rfl
    | @assign _ _ target _ _ _ =>
      -- The target is a name of the copy's own.
      have own : change target ∈ copy.ownNames := by
        rw [copied.ownNames_eq]
        exact List.mem_map_of_mem (List.mem_append_right _
          (List.mem_filterMap.mpr ⟨_, member, rfl⟩))
      rw [Statement.targetOffences, if_neg (free _ own).1, if_neg (free _ own).2]
  · -- What is known before a statement is known before its copy, under the changed name.
    have targets := Statement.Copy.targets_eq (before.imp fun _ _ both => both.2)
    rw [copied.name, copied.params, targets, ← List.map_append]
    refine same.value.offences_eq_nil (fun read known => List.mem_map_of_mem known) ?_ passed.2
    intro read known
    rwa [constants read known]

/-- A program in order with a copy of one of its functions is in order, if the own names of the copy
are apart from those of the program. -/
theorem Program.check_of_copy {env : Environment} (accepted : program.check = .ok env)
    (split : program.functions = before ++ function :: after) (copied : function.Copy change copy)
    (injective : Function.Injective change)
    (constants : ∀ name ∈ program.constants.map (·.name), change name = name)
    (free : ∀ name ∈ copy.ownNames, name ∉ program.constants.map (·.name) ∧
      name ∉ program.functions.map (·.name)) :
    (program.withDeclarations program.constants (before ++ copy :: after)).check =
      .ok (program.withDeclarations program.constants (before ++ copy :: after)).listing := by
  -- The names that are declared are the same, so only the copy itself is in question.
  have same := sameNames_of_copy split copied
  have names : (before ++ copy :: after).map (·.name) = program.functions.map (·.name) := by
    simp [split, copied.name]
  -- What is asked of every function is asked of the copy in place of its function.
  have each {Kept : Function Span → Prop} (all : ∀ other ∈ program.functions, Kept other)
      (replaced : Kept function → Kept copy) : ∀ other ∈ before ++ copy :: after, Kept other := by
    rw [split, List.forall_mem_append, List.forall_mem_cons] at all
    rw [List.forall_mem_append, List.forall_mem_cons]
    exact ⟨all.1, replaced all.2.1, all.2.2⟩
  obtain ⟨unoffended, -⟩ := check_eq_ok_iff.mp accepted
  refine check_eq_ok_iff.mpr ⟨?_, rfl⟩
  simp only [offences, List.append_eq_nil_iff, List.flatMap_eq_nil_iff, List.filterMap_eq_nil_iff,
    functionOffences_eq_nil_iff, Parameter.offences_congr same, Statement.offences_congr same]
    at unoffended ⊢
  obtain ⟨constantsPassed, ⟨distinct, own⟩, params, main, bodies⟩ := unoffended
  refine ⟨constantsPassed, ⟨names ▸ distinct, each own fun apart => copied.name ▸ apart⟩,
    each params (copied.parameterOffences_eq_nil injective free), each main ?_,
    each bodies (copied.bodyOffences_eq_nil constants free)⟩
  -- A main function without parameters is copied to one without parameters.
  have lengths := copied.arity_eq
  intro passed
  simp only [Function.mainOffence?, ite_eq_right_iff, reduceCtorEq, imp_false, not_and, ne_eq,
    not_not, copied.name] at passed ⊢
  intro named
  rw [Function.arity, Function.arity, passed named] at lengths
  exact List.length_eq_zero_iff.mp lengths

end Checked

end DoubleLang
