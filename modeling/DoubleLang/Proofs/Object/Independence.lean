import DoubleLang.Proofs.Object.Data
import DoubleLang.Proofs.Object.Notes
import DoubleLang.Proofs.Program.Reordering

/-!
Functions are compiled one by one.

The code and the pool of a function follow from its declaration alone. Other declarations decide
whether the program is in order, not what becomes of the function, and their order decides only the
order of the code.
-/

namespace DoubleLang

/-- A function without its notes. -/
def Function.bare {α : Type} (function : Function α) : Function Unit :=
  function.mapNotes fun _ => ()

/-- The pieces of data that belong to the pool of a function. -/
def Object.poolOf (object : Object) (function : String) : List Datum :=
  object.data.filter (·.origin = .pool function)

/-- Functions that differ in their notes only have the same scope. -/
private theorem Function.scopeBehind_of_bare {function twin : Function Span}
    (same : function.bare = twin.bare) :
    function.scopeBehind function.body = twin.scopeBehind twin.body := by
  -- A scope is made of the names of parameters and targets.
  have params := congrArg (fun tree => tree.params.map (·.name)) same
  have targets := congrArg (fun tree => Statement.targets tree.body) same
  simp only [Function.bare, Function.params_mapNotes, Parameter.names_mapNotes,
    Function.body_mapNotes, Statement.targets_mapNotes] at params targets
  have roles : ∀ tree : Function Span,
      tree.params.map (fun parameter => (parameter.name, Role.parameter)) =
        (tree.params.map (·.name)).map (·, Role.parameter) := by simp [Function.comp_def]
  simp only [Function.scopeBehind, Function.locals, roles, params, targets]

namespace Emission

/-- The code of a function has nothing of an environment but the scope of the function. -/
theorem routine_congr {α : Type} {env other : Environment} {function : Function α}
    (same : env.scope function.name = other.scope function.name) :
    routine env function = routine other function := by
  simp only [routine, Frame.ofFunction, same]

/-- Functions that differ in their notes only have the same pool. -/
private theorem pool_of_bare {function twin : Function Span} (same : function.bare = twin.bare) :
    pool function = pool twin := by
  rw [← pool_mapNotes (fun _ => ()) function, ← pool_mapNotes (fun _ => ()) twin]
  exact congrArg pool same

end Emission

namespace Object.Compiles

variable {program other : Program Span} {env otherEnv : Environment} {object otherObject : Object}
  {function twin : Function Span}

/-- Functions that differ in their notes only have the same code in two programs in order. -/
private theorem compiled_eq (compiles : object.Compiles env program)
    (otherCompiles : otherObject.Compiles otherEnv other) (accepted : program.check = .ok env)
    (otherAccepted : other.check = .ok otherEnv) (member : function ∈ program.functions)
    (otherMember : twin ∈ other.functions) (same : function.bare = twin.bare) :
    Emission.compiled env function = Emission.compiled otherEnv twin := by
  -- Without notes the functions are the same, name and all.
  have named : function.name = twin.name := congrArg (·.name) same
  have scopes : env.scope twin.name = otherEnv.scope twin.name := by
    rw [← named, Program.scope_of_check accepted member, named,
      Program.scope_of_check otherAccepted otherMember, Function.scopeBehind_of_bare same]
  -- Notes have no part in the code, and of the environment only the scope has.
  have routines : Emission.routine env function = Emission.routine otherEnv twin :=
    calc Emission.routine env function
        = Emission.routine env function.bare := (Emission.routine_mapNotes _ env function).symm
      _ = Emission.routine env twin.bare := by rw [same]
      _ = Emission.routine env twin := Emission.routine_mapNotes _ env twin
      _ = Emission.routine otherEnv twin := Emission.routine_congr scopes
  rw [Emission.routine_eq_ok (compiles.checked.functions function member),
    Emission.routine_eq_ok (otherCompiles.checked.functions twin otherMember)] at routines
  exact Except.ok.inj routines

/-- The pool of a function among the data is made from its own literals. -/
private theorem mem_poolOf_iff (compiles : object.Compiles env program)
    (member : function ∈ program.functions) (datum : Datum) :
    datum ∈ object.poolOf function.name ↔ datum ∈ Emission.pool function := by
  -- An entry tells by its origin which function it is for.
  have origin {owner : Function Span} (pooled : datum ∈ Emission.pool owner) :
      datum.origin = .pool owner.name := by
    obtain ⟨item, -, rfl⟩ := List.mem_map.mp pooled
    rfl
  simp only [Object.poolOf, List.mem_filter, compiles.data, List.mem_append, List.mem_flatMap,
    decide_eq_true_eq]
  constructor
  · rintro ⟨constant | ⟨owner, listed, pooled⟩, owned⟩
    · -- A constant belongs to no pool.
      obtain ⟨entry, -, rfl⟩ := List.mem_map.mp constant
      cases owned
    · -- The pool belongs to the only function of that name.
      have named : owner.name = function.name := by
        rw [origin pooled] at owned
        exact Origin.pool.inj owned
      rw [List.inj_on_of_nodup_map compiles.checked.functions_distinct listed member named]
        at pooled
      exact pooled
  · intro pooled
    exact ⟨.inr ⟨function, member, pooled⟩, origin pooled⟩

/-- Functions that differ in their notes only have the same pool in two programs in order. -/
private theorem poolOf_eq (compiles : object.Compiles env program)
    (otherCompiles : otherObject.Compiles otherEnv other)
    (made : Object.ofProgram env program = .ok object)
    (otherMade : Object.ofProgram otherEnv other = .ok otherObject)
    (member : function ∈ program.functions) (otherMember : twin ∈ other.functions)
    (same : function.bare = twin.bare) :
    object.poolOf function.name = otherObject.poolOf twin.name := by
  -- Both are parts of lists in strict order.
  refine Datum.Increasing.eq_of_mem_iff
    (List.Pairwise.filter _ (Object.data_increasing made compiles.distinct))
    (List.Pairwise.filter _ (Object.data_increasing otherMade otherCompiles.distinct)) ?_
  intro datum
  rw [compiles.mem_poolOf_iff member, otherCompiles.mem_poolOf_iff otherMember,
    Emission.pool_of_bare same]

/-- Constants and functions in another order have the same data. -/
private theorem data_of_perm {constants : List (Constant Span)} {functions : List (Function Span)}
    (compiles : object.Compiles env program)
    (reordered : otherObject.Compiles otherEnv (program.withDeclarations constants functions))
    (made : Object.ofProgram env program = .ok object)
    (otherMade : Object.ofProgram otherEnv (program.withDeclarations constants functions) =
      .ok otherObject)
    (constantsPerm : constants.Perm program.constants)
    (functionsPerm : functions.Perm program.functions) : otherObject.data = object.data := by
  -- Data in order are told by what is among them.
  refine (Object.data_increasing otherMade reordered.distinct).eq_of_mem_iff
    (Object.data_increasing made compiles.distinct) ?_
  intro datum
  rw [compiles.data, reordered.data, List.mem_append, List.mem_append, Emission.constants,
    Emission.constants, compiles.checked.constants, reordered.checked.constants]
  -- Both lists of declarations are the same up to order.
  exact or_congr ((constantsPerm.map _).map _).mem_iff (functionsPerm.flatMap_right _).mem_iff

end Object.Compiles

/-- A function has the same code and the same pool in all programs in order that declare it,
whatever else they declare. So constants and functions may be put in any other order: the program is
in order again, its data are the same list, and its code is that of the same functions in the new
order. -/
theorem Object.functions_compiled_independently {program other : Program Span}
    {env otherEnv : Environment} (identified : program.Identified)
    (otherIdentified : other.Identified) (accepted : program.check = .ok env)
    (otherAccepted : other.check = .ok otherEnv) :
    ∃ object otherObject, Object.ofProgram env program = .ok object ∧
      Object.ofProgram otherEnv other = .ok otherObject ∧
      (∀ (index place : Nat) (function twin : Function Span),
        program.functions[index]? = some function → other.functions[place]? = some twin →
        function.bare = twin.bare →
          (∃ routine, object.routines[index]? = some routine ∧
            otherObject.routines[place]? = some routine) ∧
          object.poolOf function.name = otherObject.poolOf twin.name) ∧
      ∀ constants functions, constants.Perm program.constants →
        functions.Perm program.functions →
          ∃ reorderedEnv reordered,
            (program.withDeclarations constants functions).check = .ok reorderedEnv ∧
            Object.ofProgram reorderedEnv (program.withDeclarations constants functions) =
              .ok reordered ∧
            reordered.data = object.data ∧
            ∃ compile : Function Span → Routine, object.routines = program.functions.map compile ∧
              reordered.routines = functions.map compile := by
  -- Programs in order are compiled, function by function.
  obtain ⟨object, made, compiles⟩ := Object.exists_compiles identified accepted
  obtain ⟨otherObject, otherMade, otherCompiles⟩ :=
    Object.exists_compiles otherIdentified otherAccepted
  refine ⟨object, otherObject, made, otherMade, ?_, ?_⟩
  · intro index place function twin found otherFound same
    have member := List.mem_of_getElem? found
    have otherMember := List.mem_of_getElem? otherFound
    refine ⟨⟨Emission.compiled env function, ?_, ?_⟩,
      compiles.poolOf_eq otherCompiles made otherMade member otherMember same⟩
    · simp [compiles.routines, found]
    · rw [compiles.compiled_eq otherCompiles accepted otherAccepted member otherMember same]
      simp [otherCompiles.routines, otherFound]
  · intro constants functions constantsPerm functionsPerm
    have reorderedAccepted := Program.check_of_perm accepted constantsPerm functionsPerm
    obtain ⟨reordered, reorderedMade, reorderedCompiles⟩ := Object.exists_compiles
      (fun function member => identified function (functionsPerm.mem_iff.mp member))
      reorderedAccepted
    refine ⟨_, reordered, reorderedAccepted, reorderedMade,
      compiles.data_of_perm reorderedCompiles made reorderedMade constantsPerm functionsPerm,
      Emission.compiled env, compiles.routines, ?_⟩
    -- Every function is a function of both programs.
    rw [reorderedCompiles.routines]
    refine List.map_congr_left fun function member => ?_
    exact reorderedCompiles.compiled_eq compiles reorderedAccepted accepted member
      (functionsPerm.mem_iff.mp member) rfl

/-- A function that halves, as it stands at some place. -/
def Function.halving (span : Span) : Function Span :=
  ⟨span, "half", [⟨span, "x"⟩],
    [.returns span (.binary span .divide (.name span "x") (.literal span "2"))]⟩

/-- A program that halves a constant, with the halving function as the second one. -/
def Program.halvingConstant : Program Span :=
  let here : Span := ⟨"constant.dbl", .start, .start⟩
  ⟨here, "constant.dbl", [⟨here, "k", "3"⟩, ⟨here, "j", "4"⟩],
    [⟨here, "main", [], [.returns here (.binary here .add (.call here "half" [.name here "k"])
      (.literal here "1"))]⟩, .halving here]⟩

/-- A program of the halving function alone, as it stands at another place. -/
def Program.halvingAlone : Program Span :=
  let there : Span := ⟨"alone.dbl", .start, ⟨2, 1, 40⟩⟩
  ⟨there, "alone.dbl", [], [.halving there]⟩

/-- The halving function has one code and one pool in two programs, and a program that halves a
constant may declare all it has the other way round. -/
theorem Object.halving_compiled_independently :
    ∃ object alone routine, Object.ofProgram Program.halvingConstant.listing .halvingConstant =
        .ok object ∧
      Object.ofProgram Program.halvingAlone.listing .halvingAlone = .ok alone ∧
      object.routines[1]? = some routine ∧ alone.routines[0]? = some routine ∧
      object.poolOf "half" = alone.poolOf "half" ∧
      ∃ env reordered, (Program.halvingConstant.withDeclarations
          Program.halvingConstant.constants.reverse
          Program.halvingConstant.functions.reverse).check = .ok env ∧
        Object.ofProgram env (Program.halvingConstant.withDeclarations
          Program.halvingConstant.constants.reverse Program.halvingConstant.functions.reverse) =
            .ok reordered ∧
        reordered.data = object.data ∧ reordered.routines = object.routines.reverse := by
  -- The two programs are written out, so that the rules can be checked on them.
  obtain ⟨object, alone, made, aloneMade, shared, orders⟩ :=
    @Object.functions_compiled_independently .halvingConstant .halvingAlone _ _
      (by unfold Program.Identified; decide) (by unfold Program.Identified; decide)
      (Program.check_eq_ok_iff.mpr ⟨by decide, rfl⟩)
      (Program.check_eq_ok_iff.mpr ⟨by decide, rfl⟩)
  obtain ⟨⟨routine, found, aloneFound⟩, pools⟩ := shared 1 0 _ _ rfl rfl rfl
  obtain ⟨env, reordered, accepted, reorderedMade, data, compile, routines, reversed⟩ :=
    orders _ _ (List.reverse_perm _) (List.reverse_perm _)
  exact ⟨object, alone, routine, made, aloneMade, found, aloneFound, pools, env, reordered,
    accepted, reorderedMade, data, by rw [reversed, routines, List.map_reverse]⟩

end DoubleLang
