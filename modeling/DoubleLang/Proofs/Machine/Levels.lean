import DoubleLang.Proofs.Machine.Execution

/-!
Where the top of the stack and the base of the frame stand, instruction by instruction.

Code has no jumps, so it is followed from its first instruction to its last. A call is taken as a
whole, for a function gives both registers back as it found them.
-/

namespace DoubleLang

/-- The top of the stack and the base of the frame. -/
structure Levels where
  top : Int
  base : Int
  deriving DecidableEq, Repr

namespace Levels

/-- How far the top lies below the base. -/
def depth (levels : Levels) : Int :=
  levels.base - levels.top

/-- The levels with a top that is some bytes lower. -/
def lower (levels : Levels) (bytes : Int) : Levels :=
  { levels with top := levels.top - bytes }

/-- The levels behind an instruction. There are none once the frame is closed, nor where a register
is set in any other way. -/
def after? (levels : Levels) : Instruction → Option Levels
  | ⟨.push, _⟩ => some (levels.lower 8)
  | ⟨.mov, [.register (.address .rsp), .register (.address .rbp)]⟩ =>
    some { levels with base := levels.top }
  | ⟨.sub, [.immediate bytes, .register (.address .rsp)]⟩ => some (levels.lower bytes)
  | ⟨.add, [.immediate bytes, .register (.address .rsp)]⟩ => some (levels.lower (-bytes))
  -- Doubles move and meet beside the levels, and a call comes back to them.
  | ⟨.movsd, _⟩ | ⟨.movaps, _⟩ | ⟨.addsd, _⟩ | ⟨.subsd, _⟩ | ⟨.mulsd, _⟩ | ⟨.divsd, _⟩
  | ⟨.callq, _⟩ => some levels
  | _ => none

/-- The levels behind code. -/
def follow? (levels : Levels) (code : List Instruction) : Option Levels :=
  code.foldlM after? levels

variable {levels next last : Levels} {bytes more : Int}

/-- Lowering the top makes the stack deeper. -/
@[simp] theorem depth_lower : (levels.lower bytes).depth = levels.depth + bytes := by
  simp only [depth, lower]
  omega

/-- Lowering the top in two turns. -/
@[simp] theorem lower_lower : (levels.lower bytes).lower more = levels.lower (bytes + more) := by
  simp [lower, Int.sub_sub]

/-- Lowering the top by nothing. -/
@[simp] theorem lower_zero : levels.lower 0 = levels := by
  simp [lower]

/-- Raising the top by as much as it was lowered. -/
theorem after?_add_lower : (levels.lower bytes).after?
    ⟨.add, [.immediate bytes, .register (.address .rsp)]⟩ = some levels := by
  rw [after?, lower_lower, Int.add_right_neg, lower_zero]

/-- Nothing is followed once the frame is closed. -/
theorem mnemonic_ne_leaveq {instruction : Instruction}
    (moved : levels.after? instruction = some next) : instruction.mnemonic ≠ .leaveq := by
  -- There are no levels behind the instruction that closes it.
  obtain ⟨mnemonic, operands⟩ := instruction
  rintro rfl
  cases moved

/-- The levels behind code are those behind its rest, from those behind its first instruction. -/
private theorem follow?_cons_eq_some {instruction : Instruction} {rest : List Instruction} :
    levels.follow? (instruction :: rest) = some last ↔
      ∃ next, levels.after? instruction = some next ∧ next.follow? rest = some last := by
  rw [follow?, List.foldlM_cons]
  exact Option.bind_eq_some_iff

/-- The levels behind code in two parts. -/
theorem follow?_append {code others : List Instruction} (front : levels.follow? code = some next)
    (back : next.follow? others = some last) : levels.follow? (code ++ others) = some last := by
  rw [follow?, List.foldlM_append]
  exact Option.bind_eq_some_iff.mpr ⟨next, front, back⟩

/-- Code that is passed from some levels to others, with a condition met at every instruction. -/
inductive Passes (Meets : Levels → Instruction → Prop) :
    Levels → List Instruction → Levels → Prop where
  | nil (levels : Levels) : Passes Meets levels [] levels
  | cons {levels next last : Levels} {instruction : Instruction} {rest : List Instruction} :
      Meets levels instruction → levels.after? instruction = some next →
        Passes Meets next rest last → Passes Meets levels (instruction :: rest) last

namespace Passes

variable {Meets : Levels → Instruction → Prop} {instruction : Instruction}
  {code others : List Instruction}

/-- An instruction alone. -/
theorem single (meets : Meets levels instruction) (moved : levels.after? instruction = some next) :
    Passes Meets levels [instruction] next :=
  .cons meets moved (.nil next)

/-- Code in two parts. -/
theorem append (front : Passes Meets levels code next) (back : Passes Meets next others last) :
    Passes Meets levels (code ++ others) last := by
  -- Induction on the way through the first part.
  induction front with
  | nil _ => exact back
  | cons meets moved _ ih => exact .cons meets moved (ih back)

/-- Instructions that all leave the levels as they are. -/
theorem of_still (still : ∀ instruction ∈ code, Meets levels instruction ∧
    levels.after? instruction = some levels) : Passes Meets levels code levels := by
  -- Each instruction starts from the same levels.
  induction code with
  | nil => exact .nil levels
  | cons instruction rest ih =>
    obtain ⟨meets, stays⟩ := still instruction List.mem_cons_self
    exact .cons meets stays (ih fun other member => still other (List.mem_cons_of_mem _ member))

/-- The levels behind code that is passed. -/
theorem follow?_eq (passes : Passes Meets levels code last) :
    levels.follow? code = some last := by
  -- What is passed step by step is followed step by step.
  induction passes with
  | nil _ => rfl
  | cons _ moved _ ih => exact follow?_cons_eq_some.mpr ⟨_, moved, ih⟩

/-- At every instruction of code that is passed, there are levels that meet the condition, and the
instruction leads on from them. -/
theorem exists_follow? (passes : Passes Meets levels (code ++ instruction :: others) last) :
    ∃ here next, levels.follow? code = some here ∧ Meets here instruction ∧
      here.after? instruction = some next := by
  -- The instruction comes first, or it is found behind the first one.
  induction code generalizing levels with
  | nil =>
    cases passes with
    | cons meets moved _ => exact ⟨levels, _, rfl, meets, moved⟩
  | cons first rest ih =>
    cases passes with
    | cons _ moved later =>
      obtain ⟨here, next, followed, meets, leads⟩ := ih later
      exact ⟨here, next, follow?_cons_eq_some.mpr ⟨_, moved, followed⟩, meets, leads⟩

end Passes

end Levels

namespace Machine

variable {D : Type} {object : Object} {arithmetic : Arithmetic D}

/-- The levels at which a machine is. -/
def levels (machine : Machine D) : Levels :=
  ⟨machine.top, machine.base⟩

/-- A machine that runs code of one function, where every call comes back with the stack and the
base as they were; whatever else the called function has done. -/
inductive Follows (object : Object) (arithmetic : Arithmetic D) :
    Machine D → List Instruction → Machine D → Prop where
  | nil (machine : Machine D) : Follows object arithmetic machine [] machine
  | plain {machine next last : Machine D} {instruction : Instruction} {rest : List Instruction} :
      instruction.isPlain = true → machine.execute object arithmetic instruction = some next →
        Follows object arithmetic next rest last →
          Follows object arithmetic machine (instruction :: rest) last
  | call {machine back last : Machine D} {callee : String} {rest : List Instruction} :
      back.levels = machine.levels → Follows object arithmetic back rest last →
        Follows object arithmetic machine (⟨.callq, [.label callee]⟩ :: rest) last

/-- An operation leaves the levels as they are. -/
private theorem levels_of_operate {machine after : Machine D} {operation : D → D → D}
    {source : Operand}
    {target : DoubleRegister}
    (made : execute.operate object arithmetic machine operation source target = some after) :
    after.levels = machine.levels := by
  -- Only a register for doubles is set.
  obtain ⟨value, -, same⟩ := Option.bind_eq_some_iff.mp made
  cases same
  rfl

/-- A machine that runs a plain instruction comes to the levels that are followed. -/
private theorem levels_of_execute {machine after : Machine D} {instruction : Instruction}
    {levels : Levels}
    (plain : instruction.isPlain = true)
    (ran : machine.execute object arithmetic instruction = some after)
    (followed : machine.levels.after? instruction = some levels) : after.levels = levels := by
  -- One case for each form of instruction that a machine runs.
  unfold execute at ran
  split at ran
  · -- A push.
    obtain ⟨value, -, same⟩ := Option.bind_eq_some_iff.mp ran
    cases same
    cases followed
    rfl
  · -- The base is set to the top, and no other address is moved.
    rename_i source target
    cases source <;> cases target <;> simp only [Levels.after?, reduceCtorEq] at followed
    cases ran
    cases followed
    rfl
  · -- The top is lowered, and no other address is.
    rename_i bytes target
    cases target <;> simp only [Levels.after?, reduceCtorEq] at followed
    cases ran
    cases followed
    rfl
  · -- The top is raised, and no other address is.
    rename_i bytes target
    cases target <;> simp only [Levels.after?, reduceCtorEq] at followed
    cases ran
    cases followed
    simp [Levels.lower, Machine.levels, next]
  · -- A double to a register.
    obtain ⟨value, -, same⟩ := Option.bind_eq_some_iff.mp ran
    cases same
    cases followed
    rfl
  · -- A double to the stack.
    obtain ⟨address, -, same⟩ := Option.bind_eq_some_iff.mp ran
    cases same
    cases followed
    rfl
  · cases ran
    cases followed
    rfl
  · -- The four operations.
    cases followed
    exact levels_of_operate ran
  · cases followed
    exact levels_of_operate ran
  · cases followed
    exact levels_of_operate ran
  · cases followed
    exact levels_of_operate ran
  · -- Calls, the end of the frame and the return are not followed here.
    simp [Instruction.isPlain] at plain
  · cases followed
  · simp [Instruction.isPlain] at plain
  · cases ran

/-- A machine that runs code comes to the levels that are followed. -/
theorem Follows.levels_eq {machine last : Machine D} {code : List Instruction}
    (follows : Follows object arithmetic machine code last) {levels : Levels}
    (followed : machine.levels.follow? code = some levels) : last.levels = levels := by
  -- The machine and the levels take the same step for every instruction.
  induction follows with
  | nil machine =>
    cases followed
    rfl
  | plain plain ran _ ih =>
    obtain ⟨next, moved, later⟩ := Levels.follow?_cons_eq_some.mp followed
    rw [← levels_of_execute plain ran moved] at later
    exact ih later
  | call back _ ih =>
    -- A call comes back to the levels at which it was made.
    obtain ⟨next, moved, later⟩ := Levels.follow?_cons_eq_some.mp followed
    cases moved
    rw [← back] at later
    exact ih later

end Machine

end DoubleLang
