import DoubleLang.Object.Emitter
import DoubleLang.Proofs.Object.Failure

/-!
One pass over a program, against its compiled form.

Whatever the pass does adds code, meets some literals and adds an entry for each of them, with
numbers that go on from those met before. What it adds depends on that number alone, so two steps in
a row add what the first adds and then what the second adds from there.
-/

namespace DoubleLang

namespace Emitter

open Emission

variable {α : Type}

/-- The pool entries of literals of a function, numbered from a number on. -/
def entries (function : String) (number : Nat) (texts : List String) : List Datum :=
  (texts.zipIdx number).map fun (text, number) =>
    ⟨PoolName.entry function number, text, .pool function⟩

/-- What has been written, with more code and more literals met. -/
def Output.grow (function : String) (output : Output) (code : List Instruction)
    (texts : List String) : Output :=
  ⟨output.code ++ code, output.met + texts.length, output.data ++ entries function output.met texts⟩

/-- A step that adds code, which may depend on the number of literals met before or break off for
want of a slot, and meets literals. -/
def produce (function : String) (code : Nat → Except MissingSlot (List Instruction))
    (texts : List String) : Emitter Unit :=
  fun output =>
    match code output.met with
    | .error missing => .error (.slot missing)
    | .ok code => .ok ((), output.grow function code texts)

/-- More literals are numbered from where the others end. -/
private theorem entries_append (function : String) (number : Nat) (texts others : List String) :
    entries function number (texts ++ others) =
      entries function number texts ++ entries function (number + texts.length) others := by
  simp [entries, List.zipIdx_append]

/-- Two steps add what the first adds, and then what the second adds from there. -/
private theorem produce_bind (function : String)
    (code others : Nat → Except MissingSlot (List Instruction))
    (texts more : List String) :
    (produce function code texts >>= fun _ => produce function others more) =
      produce function (fun number => do
        let first ← code number
        let second ← others (number + texts.length)
        return first ++ second) (texts ++ more) := by
  -- The second step counts its literals from where the first has stopped.
  funext output
  show (produce function code texts output >>= fun result => produce function others more result.2)
    = _
  -- Either step may break off, and nothing is kept then.
  cases found : code output.met with
  | error missing => simp [produce, found, bind, Except.bind]
  | ok first =>
    cases later : others (output.met + texts.length) with
    | error missing => simp [produce, found, later, Output.grow, bind, Except.bind]
    | ok second =>
      simp [produce, found, later, Output.grow, entries_append, bind, Except.bind, pure,
        Except.pure, Nat.add_assoc]

/-- Steps that add the same code and meet the same literals are the same. -/
private theorem produce_congr {function : String}
    {code others : Nat → Except MissingSlot (List Instruction)}
    {texts more : List String} (same : ∀ number, code number = others number)
    (met : texts = more) : produce function code texts = produce function others more := by
  rw [funext same, met]

/-- Writing instructions meets no literal. -/
theorem emit_eq (function : String) (instructions : List Instruction) :
    emit instructions = produce function (fun _ => pure instructions) [] := by
  -- Without literals the pool and the count stay as they are.
  funext output
  simp [emit, produce, Output.grow, entries, modify, modifyGet, MonadStateOf.modifyGet,
    StateT.modifyGet, pure, Except.pure]

/-- A step that does nothing adds nothing. -/
private theorem pure_eq (function : String) :
    (pure () : Emitter Unit) = produce function (fun _ => pure []) [] := by
  -- To grow by nothing is to stay the same.
  funext output
  have unchanged : output.grow function [] [] = output := by simp [Output.grow, entries]
  show Except.ok ((), output) = Except.ok ((), output.grow function [] [])
  rw [unchanged]

/-- Instructions written one after the other are written in a row. -/
private theorem emit_bind_emit (first second : List Instruction) :
    (emit first >>= fun _ => emit second) = emit (first ++ second) := by
  rw [emit_eq "", emit_eq "", emit_eq "", produce_bind]
  rfl

/-- Instructions written for each member of a list are written in a row. -/
private theorem forM_emit {β : Type} {items : List β} {work : β → Emitter Unit}
    {made : β → Instruction}
    (each : ∀ item ∈ items, work item = emit [made item]) :
    forM items work = emit (items.map made) := by
  -- One member is written, and then the others behind it.
  induction items with
  | nil =>
    rw [List.forM_nil, List.map_nil, emit_eq ""]
    exact pure_eq ""
  | cons item rest ih =>
    rw [List.forM_cons, each item List.mem_cons_self,
      ih fun other member => each other (List.mem_cons_of_mem item member)]
    exact emit_bind_emit [made item] (rest.map made)

/-- The first eight arguments have their registers. -/
private theorem register_eq (index : Fin 8) : register index.val = pure (double index) := by
  -- The register is asked for by its number, which is in range.
  have fits : argumentRegister (index.val : Int) = .ok index := by
    rw [argumentRegister, if_neg (by omega), dif_pos (by simp)]
    rfl
  rw [register, fits]

/-- Arguments in registers are passed as a call passes them. -/
private theorem passArguments_eq (count : Nat) :
    passArguments count = emit (((List.finRange 8).take count).map fun register =>
      ⟨.movsd, [stackCell (Frame.spillSize * (count - 1 - register.val)), double register]⟩) := by
  -- Registers are counted by numbers, up to eight or to as many as there are arguments.
  have numbers : List.range (min count 8) = ((List.finRange 8).take count).map Fin.val := by
    rw [List.map_take, List.map_coe_finRange_eq_range, List.take_range]
  rw [passArguments, numbers, List.forM_eq_forM, List.forM_map]
  refine forM_emit fun register _ => ?_
  rw [register_eq, pure_bind]

mutual

/-- The pass over an expression writes its code and meets its literals. -/
private theorem expr_eq (function : String) (frame : Frame) : ∀ tree : Expr α,
    expr function frame tree =
      produce function (attemptExpr function frame · tree) tree.literals
  | .literal _ text => by
    funext output
    rfl
  | .name _ name => by
    -- A name that is read is looked up in the frame, and any other is among the data.
    rw [expr]
    by_cases read : frame.reads.contains name = true
    · rw [if_pos read, slot]
      cases found : frame.slots.get? name with
      | none =>
        funext output
        simp only [produce, attemptExpr, if_pos read, Emission.slot, found]
        rfl
      | some offset =>
        simp only [pure_bind]
        rw [emit_eq function]
        refine produce_congr (fun number => ?_) rfl
        simp only [attemptExpr, if_pos read, Emission.slot, found]
        rfl
    · rw [if_neg read, emit_eq function]
      refine produce_congr (fun number => ?_) rfl
      simp only [attemptExpr, if_neg read]
  | .binary _ op left right => by
    -- The right operand is numbered behind the literals of the left one.
    rw [expr, expr_eq function frame left, expr_eq function frame right, emit_eq function spill,
      emit_eq function (combine op)]
    simp only [produce_bind]
    refine produce_congr (fun number => ?_) (by simp [Expr.literals])
    simp [attemptExpr, Expr.length_literals]
  | .call _ callee args => by
    rw [expr, spilled_eq function frame args, passArguments_eq]
    simp only [emit_eq function]
    -- Without arguments nothing is freed behind the call.
    by_cases empty : args.length = 0
    · rw [if_neg (by omega)]
      simp only [pure_eq function, produce_bind]
      refine produce_congr (fun number => ?_) (by simp [Expr.literals])
      simp [attemptExpr, call, empty]
    · rw [if_pos (by omega)]
      simp only [produce_bind]
      refine produce_congr (fun number => ?_) (by simp [Expr.literals])
      simp [attemptExpr, call, empty]
  | .group _ inner => by
    simpa only [expr, attemptExpr, Expr.literals] using expr_eq function frame inner

/-- The pass over arguments writes their code and meets their literals. -/
private theorem spilled_eq (function : String) (frame : Frame) : ∀ args : List (Expr α),
    spilled function frame args =
      produce function (attemptSpilled function frame · args) (Expr.literalsOfAll args)
  | [] => pure_eq function
  | arg :: rest => by
    rw [spilled, expr_eq function frame arg, spilled_eq function frame rest, emit_eq function spill]
    simp only [produce_bind]
    refine produce_congr (fun number => ?_) (by simp [Expr.literalsOfAll])
    simp [attemptSpilled, Expr.length_literals]

end

mutual

/-- A pass over an expression without code meets its literals. -/
private theorem skip_eq (function : String) : ∀ tree : Expr α,
    skip function tree = produce function (fun _ => pure []) tree.literals
  | .literal _ text => by
    funext output
    show Except.ok ((), (⟨output.code, output.met + 1, output.data ++ _⟩ : Output)) = _
    simp [produce, Output.grow, entries, Expr.literals, pure, Except.pure]
  | .name _ _ => pure_eq function
  | .binary _ _ left right => by
    rw [skip, skip_eq function left, skip_eq function right, produce_bind]
    rfl
  | .call _ _ args => by
    simpa only [skip, Expr.literals] using skipAll_eq function args
  | .group _ inner => by
    simpa only [skip, Expr.literals] using skip_eq function inner

/-- A pass over expressions without code meets their literals. -/
private theorem skipAll_eq (function : String) : ∀ args : List (Expr α),
    skipAll function args = produce function (fun _ => pure []) (Expr.literalsOfAll args)
  | [] => pure_eq function
  | arg :: rest => by
    rw [skipAll, skip_eq function arg, skipAll_eq function rest, produce_bind]
    rfl

end

/-- The pass over a live statement writes its code, if it has any, and meets its literals. -/
private theorem statement_eq (function : String) (frame : Frame) (tree : Statement α) :
    statement function frame tree =
      produce function (fun number =>
          if hasCode frame tree then attemptStatement function frame number tree else .ok [])
        tree.value.literals := by
  -- What is returned has code in any case, an assignment only if its target is read.
  cases tree with
  | returns note value => exact expr_eq function frame value
  | assign note target value =>
    rw [statement]
    by_cases read : frame.reads.contains target = true
    · have coded : hasCode frame (.assign note target value) = true := read
      simp only [coded, if_true, if_pos read]
      rw [expr_eq, slot]
      cases found : frame.slots.get? target with
      | none =>
        -- Without a slot for the target both break off, behind the code of the value.
        funext output
        simp only [produce, attemptStatement, Emission.slot, found]
        show (produce function _ _ output >>= fun _ => _) = _
        cases made : attemptExpr function frame output.met value with
        | error missing => simp [produce, made, bind, Except.bind]
        | ok code => simp [produce, made, bind, Except.bind]; rfl
      | some offset =>
        simp only [pure_bind]
        rw [emit_eq function, produce_bind]
        refine produce_congr (fun number => ?_) (by simp [Statement.value])
        simp only [attemptStatement, Emission.slot, found]
        rfl
    · -- The value is not needed, but its literals have their numbers.
      have uncoded : ¬ hasCode frame (.assign note target value) = true := read
      simp only [if_neg uncoded, if_neg read]
      exact skip_eq function value

/-- The pass over statements that are not live meets their literals. -/
private theorem body_zero (function : String) (frame : Frame) (trees : List (Statement α)) :
    body function frame 0 trees =
      produce function (fun _ => pure []) (trees.flatMap (·.value.literals)) := by
  -- Every statement is passed over for its literals.
  induction trees with
  | nil => exact pure_eq function
  | cons tree rest ih =>
    rw [body, skip_eq, ih, produce_bind]
    rfl

/-- The pass over a body writes the code of its live statements and meets all literals. -/
private theorem body_eq (function : String) (frame : Frame) (trees : List (Statement α)) :
    body function frame (Statement.live trees).length trees =
      produce function (attemptStatements function frame · (Statement.live trees))
        (trees.flatMap (·.value.literals)) := by
  -- A live statement leaves one live statement less to count for the rest.
  induction trees with
  | nil => exact pure_eq function
  | cons tree rest ih =>
    rw [Statement.live]
    by_cases returns : tree.isReturn = true
    · -- Behind a return nothing is live.
      rw [if_pos returns, List.length_singleton, body, statement_eq, body_zero, produce_bind]
      refine produce_congr (fun number => ?_) rfl
      cases coded : hasCode frame tree <;> simp [attemptStatements, coded]
    · rw [if_neg returns, List.length_cons, body, statement_eq, ih, produce_bind]
      refine produce_congr (fun number => ?_) rfl
      rw [attemptStatements, Expr.length_literals]
      cases hasCode frame tree <;> rfl

/-- The pass opens the frame as the code of a function does. -/
private theorem opening_eq (frame : Frame) : opening frame = emit (Emission.opening frame) := by
  -- Each parameter in a register is stored by one instruction.
  have kept : (forM frame.arrivals fun arrival => do
      emit [⟨.movsd, [← register arrival.register.val, frameCell arrival.offset]⟩]) =
      emit (frame.arrivals.map fun arrival =>
        ⟨.movsd, [double arrival.register, frameCell arrival.offset]⟩) := by
    refine forM_emit fun arrival _ => ?_
    rw [register_eq, pure_bind]
  rw [opening, List.forM_eq_forM, kept, Emission.opening]
  -- Only a frame with a size makes room.
  by_cases empty : frame.size = 0
  · rw [if_neg (by omega), if_pos empty, bind_pure_unit]
    exact emit_bind_emit _ _
  · rw [if_pos (by omega), if_neg empty]
    simp only [emit_bind_emit]
    rfl

/-- The pass over a function writes its code and adds its pool to the data. -/
private theorem routine_eq (env : Environment) (data : List Datum) (function : Function α) :
    routine env data function =
      ((Emission.routine env function).mapError .slot).map fun made =>
        (made, data ++ Emission.pool function) := by
  -- All of the pass is one step, from no code and no literal.
  have work : (do
      opening (Frame.ofFunction env function)
      body function.name (Frame.ofFunction env function) function.live.length function.body
      emit closing) = produce function.name (fun number => do
        let code ← attemptStatements function.name (Frame.ofFunction env function) number
          function.live
        return Emission.opening (Frame.ofFunction env function) ++ (code ++ closing))
      function.literals := by
    rw [opening_eq, emit_eq function.name, emit_eq function.name, Function.live, body_eq]
    simp only [produce_bind]
    refine produce_congr (fun number => ?_) (by simp [Function.literals])
    simp
  rw [Emission.routine_eq_attempt, routine, Emission.attempt, work]
  simp only [StateT.run, produce]
  cases attemptStatements function.name (Frame.ofFunction env function) 0 function.live with
  | error missing => rfl
  | ok code => rfl

/-- The pass over functions writes their code and adds their pools to the data, in turn. -/
private theorem routines_eq (env : Environment) (data : List Datum)
    (functions : List (Function α)) :
    routines env data functions =
      ((functions.mapM (Emission.routine env)).mapError .slot).map fun made =>
        (made, data ++ functions.flatMap Emission.pool) := by
  -- Functions are passed in order, and the first that breaks off ends the pass.
  induction functions generalizing data with
  | nil =>
    rw [List.flatMap_nil, List.append_nil]
    rfl
  | cons function rest ih =>
    rw [routines, routine_eq, List.mapM_cons, List.flatMap_cons, ← List.append_assoc]
    cases Emission.routine env function with
    | error missing => rfl
    | ok first =>
      -- The other functions start from the data that this one leaves.
      have later := ih (data ++ Emission.pool function)
      show (routines env (data ++ Emission.pool function) rest >>= fun made =>
        pure (first :: made.1, made.2)) = _
      rw [later]
      cases rest.mapM (Emission.routine env) with
      | error missing => rfl
      | ok others => rfl

end Emitter

/-- One pass makes the compiled form of a program, and breaks off only for want of a slot. -/
theorem Object.emit_eq {α : Type} (env : Environment) (program : Program α) :
    Object.emit env program = (Object.ofProgram env program).mapError .slot := by
  -- The constants come first in the data, and then the pools.
  rw [Object.emit, Object.ofProgram, Emitter.routines_eq]
  cases program.functions.mapM (Emission.routine env) with
  | error missing => rfl
  | ok routines => rfl

end DoubleLang
