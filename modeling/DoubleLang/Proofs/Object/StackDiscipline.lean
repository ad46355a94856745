import DoubleLang.Proofs.Frame.Storage
import DoubleLang.Proofs.Machine.Levels
import DoubleLang.Proofs.Object.Emission
import DoubleLang.Proofs.Object.Simulation

/-!
How compiled code treats the stack.

Below its frame, the code of a function has an area for values that wait. An expression starts and
ends at the same depth; while it is computed the area only grows, by whole pairs of cells. So the
code stays within its area and its frame, and the stack is aligned at every call.
-/

namespace DoubleLang

variable {α : Type}

/-- An operand that stays within what a function has at a depth of the stack: cells counted from the
top lie in the area below the frame, and cells counted from the base lie in the frame or are those
of arguments on the stack. -/
def Operand.Fits (size : Int) (arity : Nat) (depth : Int) : Operand → Prop
  | .memory .rsp (.bytes offset) => 0 ≤ offset ∧ offset + 8 ≤ depth - size
  | .memory .rbp (.bytes offset) => (-size ≤ offset ∧ offset + 8 ≤ 0) ∨
      ∃ index : Nat, 8 ≤ index ∧ index < arity ∧
        offset = 0x10 + 0x10 * ((arity : Int) - 1 - index)
  -- Data is found from the instruction pointer only.
  | .memory .rsp (.symbol _) => False
  | .memory .rbp (.symbol _) => False
  | _ => True

namespace Levels

/-- Levels at which a function with a base and a size may be while it computes. -/
structure Steady (base size : Int) (levels : Levels) : Prop where
  base : levels.base = base
  aligned : 16 ∣ levels.depth
  room : size ≤ levels.depth

/-- An instruction that stays within what a function has. -/
structure Keeps (base size : Int) (arity : Nat) (levels : Levels) (instruction : Instruction) :
    Prop extends Steady base size levels where
  fits : ∀ operand ∈ instruction.operands, operand.Fits size arity levels.depth

variable {base size : Int} {arity : Nat} {levels : Levels}

/-- Values that wait take whole pairs of cells. -/
theorem Steady.lower (steady : Steady base size levels) (count : Nat) :
    Steady base size (levels.lower (16 * count)) := by
  -- The depth grows by whole pairs, and the base stays.
  have room := steady.room
  refine ⟨steady.base, ?_, ?_⟩
  · rw [depth_lower]
    exact Int.dvd_add steady.aligned (Int.dvd_mul_right 16 count)
  · rw [depth_lower]
    omega

/-- The top is aligned if the function was entered with a top that is aligned but for the place to
return to. -/
private theorem Steady.top_aligned {entry : Int} (steady : Steady (entry - 8) size levels)
    (entered : entry % 16 = 8) : levels.top % 16 = 0 := by
  -- Between the entry and the top lie eight bytes and the depth.
  obtain ⟨pairs, deep⟩ := steady.aligned
  have based := steady.base
  simp only [depth] at deep
  omega

end Levels

namespace Emission

open Levels

variable {base size : Int} {arity : Nat} {levels : Levels}

/-- Both operands of an instruction fit when each of them does. -/
private theorem fits_pair {depth : Int} {first second : Operand} (one : first.Fits size arity depth)
    (other : second.Fits size arity depth) :
    ∀ operand ∈ [first, second], operand.Fits size arity depth := by
  simp [one, other]

/-- Putting the value on the stack. -/
theorem spill_passes (steady : Steady base size levels) :
    Passes (Keeps base size arity) levels spill (levels.lower 16) := by
  -- The stack grows by a whole step before anything is stored.
  have lowered : Steady base size (levels.lower 16) := steady.lower 1
  have room := steady.room
  -- The value goes to the lowest cell of the area, which has just been made.
  have cell : (stackCell 0).Fits size arity (levels.lower 16).depth := by
    rw [depth_lower]
    exact ⟨by omega, by omega⟩
  exact .cons ⟨steady, fits_pair trivial trivial⟩ rfl
    (.single ⟨lowered, fits_pair trivial cell⟩ rfl)

/-- Joining the left operand on the stack with the right one. -/
private theorem combine_passes (steady : Steady base size levels) (op : BinaryOp) :
    Passes (Keeps base size arity) (levels.lower 16) (combine op) levels := by
  -- What was kept below is taken off again.
  have lowered : Steady base size (levels.lower 16) := steady.lower 1
  have room := steady.room
  -- The left operand waits in the lowest cell, until the top is raised above it.
  have cell : (stackCell 0).Fits size arity (levels.lower 16).depth := by
    rw [depth_lower]
    exact ⟨by omega, by omega⟩
  have joined : levels.after? ⟨arithmetic op, [double 1, double 0]⟩ = some levels := by
    cases op <;> rfl
  exact .cons ⟨lowered, fits_pair trivial trivial⟩ rfl
    (.cons ⟨lowered, fits_pair cell trivial⟩ rfl
      (.cons ⟨lowered, fits_pair trivial trivial⟩ after?_add_lower
        (.single ⟨steady, fits_pair trivial trivial⟩ joined)))

/-- Loading a value from a place that fits. -/
private theorem load_passes (steady : Steady base size levels) {source : Operand}
    (fits : source.Fits size arity levels.depth) :
    Passes (Keeps base size arity) levels [load source] levels :=
  .single ⟨steady, fits_pair fits trivial⟩ rfl

/-- Arguments come to their registers from the cells that they were put into. -/
theorem loads_passes (steady : Steady base size levels) (count : Nat) :
    Passes (Keeps base size arity) (levels.lower (16 * count)) (loads count)
      (levels.lower (16 * count)) := by
  -- No load moves the stack.
  have room := steady.room
  -- The cell of the last argument is the lowest, and that of the first is still in the area.
  refine .of_still fun instruction member => ?_
  obtain ⟨register, taken, rfl⟩ := List.mem_map.mp member
  have small := Machine.mem_take_finRange.mp taken
  have cell : (stackCell (Frame.spillSize * (count - 1 - register.val))).Fits size arity
      (levels.lower (16 * count)).depth := by
    rw [depth_lower]
    simp only [Frame.spillSize]
    exact ⟨by omega, by omega⟩
  exact ⟨⟨steady.lower count, fits_pair cell trivial⟩, rfl⟩

/-- Behind a call, its arguments are taken off the stack. -/
private theorem drops_passes (steady : Steady base size levels) (count : Nat) :
    Passes (Keeps base size arity) (levels.lower (16 * count)) (drops count) levels := by
  -- The stack shrinks by as much as the arguments took.
  rw [drops]
  split
  · -- Without arguments there is nothing to take off.
    rename_i none
    rw [none, Int.natCast_zero, Int.mul_zero, lower_zero]
    exact .nil levels
  · exact .single ⟨steady.lower count, fits_pair trivial trivial⟩ after?_add_lower

/-- A call takes its arguments off the stack. -/
private theorem call_passes (steady : Steady base size levels) (callee : String) (count : Nat) :
    Passes (Keeps base size arity) (levels.lower (16 * count)) (call callee count) levels := by
  -- The call itself names a label and leaves the levels as they are.
  have label : ∀ operand ∈ [Operand.label callee],
      operand.Fits size arity (levels.lower (16 * count)).depth := by
    simp [Operand.Fits]
  rw [call_eq]
  exact (loads_passes steady count).append
    (.cons ⟨steady.lower count, label⟩ rfl (drops_passes steady count))

mutual

/-- An expression comes back to the levels at which it starts. -/
theorem expr_passes {frame : Frame} (fits : ∀ name depth, (place frame name).Fits size arity depth)
    (function : String) (number : Nat) {levels : Levels} (steady : Steady base size levels) :
    ∀ tree : Expr α,
      Passes (Keeps base size arity) levels (expr function frame number tree) levels
  | .literal _ _ => load_passes steady trivial
  | .name _ name => load_passes steady (fits name _)
  | .binary _ op left right => by
    -- The right operand is computed a pair of cells deeper, where the left one waits.
    have lowered : Steady base size (levels.lower 16) := steady.lower 1
    rw [expr]
    exact (expr_passes fits function number steady left).append
      ((spill_passes steady).append
        ((expr_passes fits function (number + left.literalCount) lowered right).append
          (combine_passes steady op)))
  | .call _ callee args => by
    rw [expr]
    exact (spilled_passes fits function number steady args).append
      (call_passes steady callee args.length)
  | .group _ inner => by
    rw [expr]
    exact expr_passes fits function number steady inner

/-- Arguments are left on the stack, a pair of cells for each. -/
theorem spilled_passes {frame : Frame}
    (fits : ∀ name depth, (place frame name).Fits size arity depth) (function : String)
    (number : Nat) {levels : Levels} (steady : Steady base size levels) :
    ∀ args : List (Expr α),
      Passes (Keeps base size arity) levels (spilled function frame number args)
        (levels.lower (16 * args.length))
  | [] => by
    simp only [spilled, List.length_nil, Int.natCast_zero, Int.mul_zero, lower_zero]
    exact .nil levels
  | arg :: rest => by
    -- The others are computed below the first, which waits already.
    have lowered : Steady base size (levels.lower 16) := steady.lower 1
    have others := spilled_passes fits function (number + arg.literalCount) lowered rest
    have whole : (levels.lower 16).lower (16 * rest.length) =
        levels.lower (16 * (arg :: rest).length) := by
      rw [lower_lower, List.length_cons]
      congr 1
      omega
    rw [spilled, ← whole]
    exact (expr_passes fits function number steady arg).append ((spill_passes steady).append others)

end

/-- A statement comes back to the levels at which it starts. -/
private theorem statement_passes {frame : Frame}
    (fits : ∀ name depth, (place frame name).Fits size arity depth) (function : String)
    (number : Nat) (steady : Steady base size levels) (tree : Statement α) :
    Passes (Keeps base size arity) levels (statement function frame number tree) levels := by
  -- What is behind the expression stores its value in the frame.
  cases tree with
  | returns note value => exact expr_passes fits function number steady value
  | assign note target value =>
    exact (expr_passes fits function number steady value).append
      (.single ⟨steady, fits_pair trivial (fits target _)⟩ rfl)

/-- Statements come back to the levels at which they start. -/
private theorem statements_passes {frame : Frame}
    (fits : ∀ name depth, (place frame name).Fits size arity depth) (function : String)
    (number : Nat) (steady : Steady base size levels) (live : List (Statement α)) :
    Passes (Keeps base size arity) levels (statements function frame number live) levels := by
  -- Statement by statement, each from the same levels on.
  induction live generalizing number with
  | nil => exact .nil levels
  | cons first rest ih =>
    rw [statements]
    refine .append ?_ (ih _)
    split
    · exact statement_passes fits function number steady first
    · -- Without code the levels stay.
      exact .nil levels

/-- The code of statements in two parts; the second is numbered behind the literals of the first. -/
theorem statements_append (function : String) (frame : Frame) (number : Nat)
    (before after : List (Statement α)) :
    statements function frame number (before ++ after) =
      statements function frame number before ++
        statements function frame (number + (before.flatMap (·.value.literals)).length) after := by
  -- The code of a statement depends on the literals before it, and not on what comes later.
  induction before generalizing number with
  | nil => rfl
  | cons first rest ih =>
    rw [List.cons_append, statements, ih, statements, List.flatMap_cons, List.length_append,
      Expr.length_literals, Nat.add_assoc, List.append_assoc]

/-- An instruction of the opening of a function, where nothing is called. -/
structure Opens (size : Int) (arity : Nat) (levels : Levels) (instruction : Instruction) :
    Prop where
  fits : ∀ operand ∈ instruction.operands, operand.Fits size arity levels.depth
  calls_not : instruction.mnemonic ≠ .callq

/-- The levels of a function behind its opening: the base lies under the place to return to and the
base of the caller, and the top under the frame. -/
def opened (size : Int) (entry : Levels) : Levels :=
  ⟨entry.top - 8 - size, entry.top - 8⟩

/-- The opening of a function makes room for its frame. -/
private theorem opening_passes {frame : Frame} (fits : ∀ arrival ∈ frame.arrivals, ∀ depth,
    (frameCell arrival.offset).Fits frame.size arity depth) (entry : Levels) :
    Passes (Opens frame.size arity) entry (opening frame) (opened frame.size entry) := by
  -- The base of the caller is put on the stack, and the new base points at it.
  have linked : Passes (Opens frame.size arity) entry [⟨.push, [rbp]⟩, ⟨.mov, [rsp, rbp]⟩]
      ⟨entry.top - 8, entry.top - 8⟩ :=
    .cons ⟨by simp [rbp, Operand.Fits], by simp⟩ rfl
      (.single ⟨fits_pair trivial trivial, by simp⟩ rfl)
  refine linked.append ?_
  split
  · rename_i none
    simp only [opened, none, Int.natCast_zero, Int.sub_zero]
    exact .nil _
  · -- Parameters from registers are kept in the frame once there is room.
    refine .cons ⟨fits_pair trivial trivial, by simp⟩ rfl (.of_still ?_)
    intro instruction member
    obtain ⟨arrival, listed, rfl⟩ := List.mem_map.mp member
    exact ⟨⟨fits_pair trivial (fits arrival listed _), by simp⟩, rfl⟩

/-- Behind its opening a function has nothing below its frame. -/
private theorem depth_opened (size : Int) (entry : Levels) : (opened size entry).depth = size := by
  simp only [opened, depth]
  omega

/-- Behind its opening a function may compute. -/
private theorem steady_opened {size : Int} (pairs : 16 ∣ size) (entry : Levels) :
    Steady (entry.top - 8) size (opened size entry) := by
  have deep := depth_opened size entry
  exact ⟨rfl, deep.symm ▸ pairs, Int.le_of_eq deep.symm⟩

/-- An instruction of code in two parts is in the first part, or behind all of it. -/
theorem split_append {first second front rest : List Instruction} {instruction : Instruction}
    (same : first ++ second = front ++ instruction :: rest) :
    (∃ more, first = front ++ instruction :: more) ∨
      ∃ more, front = first ++ more ∧ second = more ++ instruction :: rest := by
  -- One of the two fronts begins with the other.
  rcases List.append_eq_append_iff.mp same with ⟨more, here, there⟩ | ⟨more, here, there⟩
  · exact .inr ⟨more, here, there⟩
  · cases more with
    | nil => exact .inr ⟨[], by simpa using here.symm, by simpa using there.symm⟩
    | cons other more =>
      rw [List.cons_append, List.cons.injEq] at there
      exact .inl ⟨more, there.1 ▸ here⟩

/-- An instruction of a function but its last is in the opening, or in the code of the statements
behind it, or it is the one that closes the frame. -/
private theorem split_code {start body front rest : List Instruction} {instruction : Instruction}
    (same : start ++ (body ++ closing) = front ++ instruction :: rest) (inside : rest ≠ []) :
    (∃ more, start = front ++ instruction :: more) ∨
      (∃ done more, front = start ++ done ∧ body = done ++ instruction :: more) ∨
        (front = start ++ body ∧ instruction = ⟨.leaveq, []⟩) := by
  -- The code has three parts, and the last of them has two instructions.
  rcases split_append same with opens | ⟨done, here, there⟩
  · exact .inl opens
  · rcases split_append there with ⟨more, computes⟩ | ⟨last, behind, closes⟩
    · exact .inr (.inl ⟨done, more, here, computes⟩)
    · -- Of the two that are left, only the first has another behind it.
      rcases last with _ | ⟨first, _ | ⟨second, last⟩⟩
      · rw [closing, List.nil_append, List.cons.injEq] at closes
        exact .inr (.inr ⟨by simpa [behind] using here, closes.1.symm⟩)
      · simp only [closing, List.cons_append, List.nil_append, List.cons.injEq] at closes
        exact absurd closes.2.2.symm inside
      · simp [closing] at closes

end Emission

open Emission Levels

/-- What holds at an instruction behind other code of a function that was entered at some levels. -/
structure Instruction.Orderly (frame : Frame) (arity : Nat) (entry : Levels)
    (front : List Instruction) (levels : Levels) (instruction : Instruction) : Prop where
  /-- The operands stay within what the function has. -/
  fits : ∀ operand ∈ instruction.operands, operand.Fits frame.size arity levels.depth
  /-- Behind the opening, the depth is a multiple of sixteen and never less than the frame. -/
  deep : opening frame <+: front → 16 ∣ levels.depth ∧ frame.size ≤ levels.depth
  /-- Where the frame is closed, nothing lies below it. -/
  leaves : instruction.mnemonic = .leaveq → levels.depth = frame.size
  /-- The top is aligned at a call, if it was so but for the place to return to. -/
  calls : instruction.mnemonic = .callq → entry.top % 16 = 8 → levels.top % 16 = 0

/-- What the code of a function does with the stack, entered at any levels. -/
structure Routine.Disciplined (function : Function α) (frame : Frame) (routine : Routine) :
    Prop where
  frameSize : routine.frameSize = frame.size
  code : routine.instructions =
    opening frame ++ (statements function.name frame 0 function.live ++ closing)
  /-- Behind the opening, the top lies under the frame. -/
  opened : ∀ entry : Levels, ∃ levels, entry.follow? (opening frame) = some levels ∧
    levels.base = entry.top - 8 ∧ levels.depth = frame.size
  /-- It lies there again behind every live statement. -/
  restored : ∀ (entry : Levels) (before after : List (Statement α)),
    function.live = before ++ after →
      opening frame ++ statements function.name frame 0 before <+: routine.instructions ∧
      ∃ levels, entry.follow? (opening frame ++ statements function.name frame 0 before) =
        some levels ∧ levels.depth = frame.size
  /-- Every instruction is in order, but for the return, which is the last and finds no frame. -/
  orderly : ∀ (entry : Levels) (front : List Instruction) (instruction : Instruction)
    (rest : List Instruction), routine.instructions = front ++ instruction :: rest → rest ≠ [] →
      ∃ levels, entry.follow? front = some levels ∧
        instruction.Orderly frame function.arity entry front levels
  /-- A machine that runs the code is at the levels that are followed. -/
  machine : ∀ {D : Type} {object : Object} {arithmetic : Arithmetic D} {machine here : Machine D}
    {front : List Instruction} {instruction : Instruction} {rest : List Instruction},
    routine.instructions = front ++ instruction :: rest → rest ≠ [] →
      machine.Follows object arithmetic front here →
        machine.levels.follow? front = some here.levels

section

variable (env : Environment) (function : Function α)

/-- Where a name is found fits the function, at any depth. -/
theorem Emission.fits_place (name : String) (depth : Int) :
    (place (Frame.ofFunction env function) name).Fits (Frame.ofFunction env function).size
      function.arity depth := by
  -- A name is in a slot of the frame, or among the data.
  unfold place
  split
  · rename_i offset found
    split
    · exact Frame.inside_of_slot env function found
    · trivial
  · trivial

/-- Where a parameter from a register is kept fits the function, at any depth. -/
private theorem Emission.fits_arrival (arrival : Frame.Arrival)
    (member : arrival ∈ (Frame.ofFunction env function).arrivals) (depth : Int) :
    (frameCell arrival.offset).Fits (Frame.ofFunction env function).size function.arity depth :=
  .inl (Frame.inside_of_arrival env function member)

/-- The opening of a function leads under its frame. -/
private theorem Emission.follow?_opening (entry : Levels) :
    entry.follow? (opening (Frame.ofFunction env function)) =
      some (opened (Frame.ofFunction env function).size entry) :=
  (opening_passes (fits_arrival env function) entry).follow?_eq

/-- Behind its opening a function is where it may compute. -/
theorem Emission.steady_behind_opening (entry : Levels) :
    Steady (entry.top - 8) (Frame.ofFunction env function).size
      (opened (Frame.ofFunction env function).size entry) :=
  steady_opened (Int.natCast_dvd_natCast.mpr (Frame.dvd_size env function)) entry

/-- Statements behind the opening of a function come back under its frame. -/
private theorem Emission.passes_behind_opening (entry : Levels) (live : List (Statement α)) :
    Passes (Keeps (entry.top - 8) (Frame.ofFunction env function).size function.arity)
      (opened (Frame.ofFunction env function).size entry)
      (statements function.name (Frame.ofFunction env function) 0 live)
      (opened (Frame.ofFunction env function).size entry) :=
  statements_passes (fits_place env function) function.name 0
    (steady_behind_opening env function entry) live

/-- The code of the first statements of a function leads under its frame. -/
theorem Emission.follow?_statements (entry : Levels) (live : List (Statement α)) :
    entry.follow? (opening (Frame.ofFunction env function) ++
      statements function.name (Frame.ofFunction env function) 0 live) =
        some (opened (Frame.ofFunction env function).size entry) :=
  follow?_append (follow?_opening env function entry)
    (passes_behind_opening env function entry live).follow?_eq

/-- Every instruction of a function but its last is in order. -/
private theorem Emission.exists_orderly (entry : Levels) {front rest : List Instruction}
    {instruction : Instruction} (same : opening (Frame.ofFunction env function) ++
      (statements function.name (Frame.ofFunction env function) 0 function.live ++ closing) =
        front ++ instruction :: rest) (inside : rest ≠ []) :
    ∃ levels, entry.follow? front = some levels ∧
      instruction.Orderly (Frame.ofFunction env function) function.arity entry front levels := by
  -- Each part of the code starts from levels that are known.
  rcases split_code same inside with ⟨more, here⟩ | ⟨done, more, rfl, here⟩ | ⟨rfl, rfl⟩
  · -- In the opening nothing is called yet, and all of it is still to be passed.
    have opens := opening_passes (fits_arrival env function) entry
    rw [here] at opens
    obtain ⟨levels, next, followed, meets, leads⟩ := opens.exists_follow?
    refine ⟨levels, followed, meets.fits, fun passed => ?_,
      fun leaves => absurd leaves (mnemonic_ne_leaveq leads),
      fun calls => absurd calls meets.calls_not⟩
    have short := passed.length_le
    rw [here, List.length_append, List.length_cons] at short
    omega
  · -- In the code of the statements the levels are steady, and the frame is never closed.
    have computes := passes_behind_opening env function entry function.live
    rw [here] at computes
    obtain ⟨levels, next, followed, keeps, leads⟩ := computes.exists_follow?
    exact ⟨levels, follow?_append (follow?_opening env function entry) followed, keeps.fits,
      fun _ => ⟨keeps.aligned, keeps.room⟩,
      fun leaves => absurd leaves (mnemonic_ne_leaveq leads),
      fun _ entered => keeps.toSteady.top_aligned entered⟩
  · -- The frame is closed where the statements have come back to it.
    have steady := steady_behind_opening env function entry
    exact ⟨_, follow?_statements env function entry function.live, by simp,
      fun _ => ⟨steady.aligned, steady.room⟩, fun _ => depth_opened _ entry, by simp⟩

/-- The code of a function keeps the discipline of the stack. -/
private theorem Emission.disciplined : Routine.Disciplined function (Frame.ofFunction env function)
    ⟨function.name, function.arity, (Frame.ofFunction env function).size,
      opening (Frame.ofFunction env function) ++
        (statements function.name (Frame.ofFunction env function) 0 function.live ++ closing)⟩ where
  frameSize := rfl
  code := rfl
  opened entry := ⟨_, follow?_opening env function entry, rfl, depth_opened _ entry⟩
  restored entry before after split := by
    refine ⟨?_, _, follow?_statements env function entry before, depth_opened _ entry⟩
    -- The code of the first statements is at the front of the code of all of them.
    rw [List.prefix_append_right_inj, split, statements_append, List.append_assoc]
    exact List.prefix_append _ _
  orderly entry _ _ _ same inside := exists_orderly env function entry same inside
  machine same inside follows := by
    obtain ⟨levels, followed, -⟩ := exists_orderly env function _ same inside
    rw [follows.levels_eq followed]
    exact followed

end

/-- A function that has code has the code that keeps the discipline of the stack. -/
private theorem Emission.disciplined_of_routine {env : Environment} {function : Function α}
    {routine : Routine} (made : Emission.routine env function = .ok routine) :
    routine.Disciplined function (Frame.ofFunction env function) := by
  -- No slot is missing, so the code is the one with all its parts.
  simp only [Emission.routine] at made
  split at made
  · cases made
  · cases made
    exact disciplined env function

namespace Object

/-- Whatever program is compiled, in whatever environment, each of its functions keeps the
discipline of the stack. -/
theorem code_keeps_stack_discipline {env : Environment} {program : Program α} {object : Object}
    (made : Object.ofProgram env program = .ok object) :
    List.Forall₂ (fun function routine =>
      routine.Disciplined function (Frame.ofFunction env function))
        program.functions object.routines := by
  -- There is code for the program only if there is for each of its functions.
  obtain ⟨routines, all, same⟩ := bind_eq_ok_iff.mp made
  cases same
  exact (mapM_eq_ok_iff.mp all).imp fun _ _ => disciplined_of_routine

/-- Three calls in one function, one of them while an operand waits, and one among the arguments of
another that takes nine of them. -/
theorem calls_in_a_nest_keep_stack_discipline : ∃ program env object,
    Program.parse "nest.dbl" ("fun g(a, b, c, d, e, f, h, i, j) \x7b return j - i; \x7d " ++
      "fun k(x) \x7b y = x * (x + k(x)); return y / g(1, 2, 3, 4, 5, 6, 7, x, y - k(y)); \x7d") =
        .ok program ∧
      program.check = .ok env ∧ Object.ofProgram env program = .ok object ∧
      object.routines.map (fun routine => (routine.name, routine.frameSize,
        routine.instructions.countP (·.mnemonic = .callq))) = [("g", 0x40, 0), ("k", 0x10, 3)] ∧
      List.Forall₂ (fun function routine =>
        routine.Disciplined function (Frame.ofFunction env function))
          program.functions object.routines := by
  -- One run counts the calls and gives the sizes of the frames.
  obtain ⟨program, env, parsed, accepted, given⟩ := Program.exists_of_verdict? "nest.dbl"
    ("fun g(a, b, c, d, e, f, h, i, j) \x7b return j - i; \x7d " ++
      "fun k(x) \x7b y = x * (x + k(x)); return y / g(1, 2, 3, 4, 5, 6, 7, x, y - k(y)); \x7d")
    (fun program => decide (program.check.toOption.map (fun env =>
      (Object.ofProgram env program).toOption.map fun object =>
        object.routines.map fun routine => (routine.name, routine.frameSize,
          routine.instructions.countP (·.mnemonic = .callq))) =
      some (some [("g", 0x40, 0), ("k", 0x10, 3)])))
    true (by decide +kernel)
  -- A program that keeps the rules is compiled, so the test has read its code.
  obtain ⟨object, made, -, -⟩ := ofProgram_eq_ok (Program.checked_of_check accepted)
  have routines := of_decide_eq_true given
  simp only [accepted, made, Except.toOption, Option.map_some, Option.some.injEq] at routines
  exact ⟨program, env, object, parsed, accepted, made, routines, code_keeps_stack_discipline made⟩

end Object

end DoubleLang
