import DoubleLang.Object.Emission
import DoubleLang.Proofs.Machine.Execution

/-!
The code of an expression leaves its value in the first register.

While it runs, the stack grows below its top at the start and comes back to it. What lies above is
never touched, which is where the names of a function are kept.
-/

namespace DoubleLang

variable {D : Type}

/-- A machine that has come behind code, with a value in the first register and the stack as it
was from its top on. -/
structure Lands (object : Object) (arithmetic : Arithmetic D) (machine : Machine D) (count : Nat)
    (value : D) (after : Machine D) : Prop where
  reaches : machine.Reaches object arithmetic after
  place : after.place = machine.place.skip count
  base : after.base = machine.base
  top : after.top = machine.top
  value : after.doubles 0 = value
  memory : ∀ address, machine.top ≤ address → after.memory address = machine.memory address

/-- A machine that has come behind code, with values on the stack, the last one on top. -/
structure Stacks (object : Object) (arithmetic : Arithmetic D) (machine : Machine D) (count : Nat)
    (values : List D) (after : Machine D) : Prop where
  reaches : machine.Reaches object arithmetic after
  place : after.place = machine.place.skip count
  base : after.base = machine.base
  top : after.top = machine.top - 16 * values.length
  values : ∀ (index : Nat) value, values[index]? = some value →
    after.memory (after.top + 16 * (values.length - 1 - index)) = some (.double value)
  memory : ∀ address, machine.top ≤ address → after.memory address = machine.memory address

/-- A machine at the start of a function, with arguments where the function looks for them. -/
structure Entered (name : String) (args : List D) (machine : Machine D) : Prop where
  place : machine.place = ⟨name, 0⟩
  registers : ∀ (register : DoubleRegister) value, args[register.val]? = some value →
    machine.doubles register = value
  stack : ∀ (index : Nat) value, 8 ≤ index → args[index]? = some value →
    machine.memory (machine.top + 8 + 16 * (args.length - 1 - index)) = some (.double value)
  returns : ∃ place, machine.memory machine.top = some (.place place)

/-- A machine that has come to where a function returns, with a value in the first register, and
with base and stack as they were; only the cells of its stack arguments may have changed. -/
structure Leaves (object : Object) (arithmetic : Arithmetic D) (name : String) (arity : Nat)
    (value : D) (machine after : Machine D) : Prop where
  reaches : machine.Reaches object arithmetic after
  routine : after.place.routine = name
  place : object.instruction? after.place = some ⟨.retq, []⟩
  base : after.base = machine.base
  top : after.top = machine.top
  value : after.doubles 0 = value
  memory : ∀ address, machine.top ≤ address →
    (∀ index : Nat, 8 ≤ index → index < arity →
      Apart address (machine.top + 8 + 16 * (arity - 1 - index))) →
    after.memory address = machine.memory address

/-- A function is there, and leaves a value whenever it is entered with arguments. -/
structure Delivers (object : Object) (arithmetic : Arithmetic D) (name : String) (args : List D)
    (value : D) : Prop where
  exists_routine : (object.routine? name).isSome = true
  leaves : ∀ machine, Entered name args machine →
    ∃ after, Leaves object arithmetic name args.length value machine after

/-- The constants and functions of a context are found in an object. -/
structure Linked (object : Object) (context : Context D) : Prop where
  constants : ∀ {name value}, context.constant? name = some value →
    (object.datum? name).map context.read = some value
  calls : ∀ {name args value}, context.call? name args = some value →
    Delivers object context.toArithmetic name args value

/-- Literals are found in the pool of a function from a number on. -/
def Pooled (object : Object) (function : String) (number : Nat) (texts : List String) : Prop :=
  ∀ offset text, texts[offset]? = some text →
    object.datum? (PoolName.entry function (number + offset : Nat)) = some text

/-- The values of a store are where a frame keeps the names that are read. -/
structure Represents (frame : Frame) (store : Table D) (machine : Machine D) : Prop where
  room : machine.top + frame.size ≤ machine.base
  kept : ∀ name ∈ frame.reads, ∀ value, store.get? name = some value →
    ∃ offset, frame.slots.get? name = some offset ∧ -(frame.size : Int) ≤ offset ∧
      machine.memory (machine.base + offset) = some (.double value)

/-- Literals in two parts are found when both are, one behind the other. -/
theorem pooled_append {object : Object} {function : String} {number : Nat}
    {first second : List String} (pooled : Pooled object function number (first ++ second)) :
    Pooled object function number first ∧
      Pooled object function (number + first.length) second := by
  -- A literal of the second part is numbered behind all of the first.
  constructor
  · intro offset text found
    refine pooled offset text ?_
    rw [List.getElem?_append_left (List.getElem?_eq_some_iff.mp found).1, found]
  · intro offset text found
    rw [Nat.add_assoc]
    refine pooled (first.length + offset) text ?_
    rw [List.getElem?_append_right (by omega), Nat.add_sub_cancel_left, found]

/-- A frame goes on representing a store while the stack only changes below its top. -/
theorem Represents.of_keep {frame : Frame} {store : Table D} {machine after : Machine D}
    (represents : Represents frame store machine) (base : after.base = machine.base)
    (lower : after.top ≤ machine.top)
    (memory : ∀ address, machine.top ≤ address → after.memory address = machine.memory address) :
    Represents frame store after := by
  -- Every slot lies at or above the old top, where nothing has changed.
  have room := represents.room
  refine ⟨by omega, ?_⟩
  intro name read value found
  obtain ⟨offset, slot, inside, cell⟩ := represents.kept name read value found
  refine ⟨offset, slot, inside, ?_⟩
  rw [base, memory _ (by omega), cell]

namespace Emission

/-- Brings the first arguments of a call from the stack to their registers. -/
def loads (count : Nat) : List Instruction :=
  ((List.finRange 8).take count).map fun register =>
    ⟨.movsd, [stackCell (Frame.spillSize * (count - 1 - register.val)), double register]⟩

/-- Takes the arguments of a call off the stack. -/
def drops (count : Nat) : List Instruction :=
  if count = 0 then [] else [⟨.add, [.immediate (Frame.spillSize * count), rsp]⟩]

/-- A call loads arguments, goes to the function, and drops the arguments. -/
theorem call_eq (callee : String) (count : Nat) :
    call callee count = loads count ++ ⟨.callq, [.label callee]⟩ :: drops count := by
  simp [call, loads, drops]

end Emission

namespace Machine

variable (object : Object) (arithmetic : Arithmetic D)

/-- Putting the value on the stack. -/
private theorem run_spill (machine : Machine D) :
    machine.run object arithmetic Emission.spill =
      some { machine with
        place := machine.place.skip 2
        top := machine.top - 16
        memory := machine.memory.write (machine.top - 16) (.double (machine.doubles 0)) } := by
  -- The top moves first, so the value lands on the new top.
  simp [run, Emission.spill, Emission.rsp, Emission.double, Emission.stackCell, execute, address?,
    setAddress?, next, Frame.spillSize]

/-- Loading a double brings it to the first register. -/
private theorem run_load {machine : Machine D} {source : Operand} {value : D}
    (found : machine.double? object arithmetic source = some value) :
    machine.run object arithmetic [Emission.load source] =
      some (machine.setDouble 0 value).next := by
  simp [run, Emission.load, Emission.double, execute, found]

/-- Joining the operands takes the left one off the stack. -/
private theorem run_combine (op : BinaryOp) {machine : Machine D} {left : D}
    (waits : machine.memory machine.top = some (.double left)) :
    ∃ after, machine.run object arithmetic (Emission.combine op) = some after ∧
      after.base = machine.base ∧ after.top = machine.top + 16 ∧ after.memory = machine.memory ∧
      after.doubles 0 = arithmetic.apply op left (machine.doubles 0) := by
  -- The four operations differ in the last instruction only.
  cases op <;>
    simp [run, Emission.combine, Emission.load, Emission.rsp, Emission.double,
      Emission.stackCell, Emission.arithmetic, execute, execute.operate, address?, setAddress?,
      next, setDouble, double?, waits, Frame.spillSize, Arithmetic.apply]

/-- As many registers are loaded as there are arguments, as far as there are registers. -/
theorem mem_take_finRange {register : DoubleRegister} {count : Nat} :
    register ∈ (List.finRange 8).take count ↔ register.val < count := by
  -- The register at a position of the list has that number.
  rw [List.mem_take_iff_getElem]
  constructor
  · rintro ⟨index, small, rfl⟩
    simp only [List.getElem_finRange, Fin.val_cast]
    omega
  · intro small
    have bound := register.isLt
    exact ⟨register.val, by simp only [List.length_finRange]; omega, by simp⟩

/-- Arguments on the stack come to their registers. -/
private theorem run_arguments {values : List D} {count : Nat} {registers : List DoubleRegister}
    {machine : Machine D}
    (there : ∀ register ∈ registers, ∃ value, values[register.val]? = some value ∧
      machine.memory (machine.top + 16 * (count - 1 - register.val)) = some (.double value)) :
    ∃ after, machine.run object arithmetic (registers.map fun register =>
        ⟨.movsd, [Emission.stackCell (Frame.spillSize * (count - 1 - register.val)),
          Emission.double register]⟩) = some after ∧
      after.base = machine.base ∧ after.top = machine.top ∧ after.memory = machine.memory ∧
      ∀ (register : DoubleRegister) value, values[register.val]? = some value →
        register ∈ registers ∨ machine.doubles register = value →
        after.doubles register = value := by
  -- Registers are loaded in turn, and a load changes no other register and no memory.
  induction registers generalizing machine with
  | nil =>
    refine ⟨machine, rfl, rfl, rfl, rfl, ?_⟩
    intro register value _ loaded
    simpa using loaded
  | cons first rest ih =>
    obtain ⟨value, argument, cell⟩ := there first (by simp)
    obtain ⟨after, ran, base, top, memory, doubles⟩ :=
      @ih (machine.setDouble first value).next fun register member =>
        there register (List.mem_cons_of_mem first member)
    refine ⟨after, ?_, base, top, memory, ?_⟩
    · have loaded : machine.execute object arithmetic
          ⟨.movsd, [Emission.stackCell (Frame.spillSize * (count - 1 - first.val)),
            Emission.double first]⟩ = some (machine.setDouble first value).next := by
        simp [execute, Emission.stackCell, Emission.double, double?, address?, Frame.spillSize,
          cell]
      rw [List.map_cons, run, List.foldlM_cons, loaded]
      exact ran
    · intro register argued given loaded
      refine doubles register argued given ?_
      -- A register has its argument from here, or will have it, or had it before.
      by_cases same : register = first
      · subst same
        rw [argument, Option.some.injEq] at given
        exact .inr (by simp [next, setDouble, given])
      · rw [List.mem_cons] at loaded
        rcases loaded with (here | later) | before
        · exact absurd here same
        · exact .inl later
        · exact .inr (by simp [next, setDouble, same, before])

/-- Taking arguments off the stack. -/
private theorem run_drops (machine : Machine D) (count : Nat) :
    ∃ after, machine.run object arithmetic (Emission.drops count) = some after ∧
      after.base = machine.base ∧ after.top = machine.top + 16 * count ∧
      after.doubles = machine.doubles ∧ after.memory = machine.memory := by
  -- A call without arguments has nothing to drop and no instruction for it.
  by_cases none : count = 0
  · exact ⟨machine, by simp [Emission.drops, none, run], rfl, by simp [none], rfl, rfl⟩
  · simp [run, Emission.drops, none, Emission.rsp, execute, address?, setAddress?, next,
      Frame.spillSize]

/-- A call comes to the start of its function, with the arguments where they are looked for. -/
private theorem call_enters {callee : String} {values : List D} {machine : Machine D}
    {rest : List Instruction} (exists_routine : (object.routine? callee).isSome = true)
    (stacked : ∀ (index : Nat) value, values[index]? = some value →
      machine.memory (machine.top + 16 * (values.length - 1 - index)) = some (.double value))
    (code : object.HasCode machine.place
      (Emission.loads values.length ++ ⟨.callq, [.label callee]⟩ :: rest)) :
    ∃ called, machine.Reaches object arithmetic called ∧ Entered callee values called ∧
      called.base = machine.base ∧ called.top = machine.top - 8 ∧
      called.memory called.top =
        some (.place (machine.place.skip ((Emission.loads values.length).length + 1))) ∧
      ∀ address, machine.top ≤ address → called.memory address = machine.memory address := by
  -- The code of a call is its loads and what comes behind them.
  rw [Object.hasCode_append] at code
  obtain ⟨loading, calling⟩ := code
  -- The first arguments come to their registers.
  have there : ∀ register ∈ (List.finRange 8).take values.length, ∃ value,
      values[register.val]? = some value ∧
        machine.memory (machine.top + 16 * ((values.length : Int) - 1 - register.val)) =
          some (.double value) := by
    intro register member
    have small := mem_take_finRange.mp member
    have found := List.getElem?_eq_getElem small
    exact ⟨_, found, stacked register.val _ found⟩
  have plain : ∀ instruction ∈ Emission.loads values.length, instruction.isPlain = true := by
    intro instruction member
    obtain ⟨register, -, rfl⟩ := List.mem_map.mp member
    rfl
  obtain ⟨loaded, ran, base, top, memory, doubles⟩ := run_arguments object arithmetic there
  obtain ⟨toLoaded, place⟩ := reaches_of_run plain loading ran
  rw [← place] at calling
  -- The call leaves where to go on at the top of the stack.
  have calls : loaded.step object arithmetic =
      some { loaded.push (.place (loaded.place.skip 1)) with place := ⟨callee, 0⟩ } := by
    simp [step, calling.head, execute, exists_routine]
  -- What lies from the old top on is not touched by the push.
  have kept : ∀ address, machine.top ≤ address →
      (loaded.push (.place (loaded.place.skip 1))).memory address = machine.memory address := by
    intro address above
    have apart : Apart address (loaded.top - 8) := .inr (by omega)
    simp [push, Memory.write_of_apart _ _ apart, memory]
  refine ⟨_, toLoaded.tail calls, ⟨rfl, ?_, ?_, ⟨_, Memory.write_self ..⟩⟩, base,
    congrArg (· - 8) top, ?_, kept⟩
  · intro register value given
    have small := (List.getElem?_eq_some_iff.mp given).1
    exact doubles register value given (.inl (mem_take_finRange.mpr small))
  · intro index value _ given
    have small := (List.getElem?_eq_some_iff.mp given).1
    have cell := stacked index value given
    rw [← kept _ (by omega)] at cell
    rw [← cell]
    simp only [push, top]
    congr 1
    omega
  · rw [Nat.add_comm, Nat.add_comm 1, ← Place.skip_skip, ← place]
    exact Memory.write_self ..

variable {object} {arithmetic}

/-- A call takes its arguments off the stack and leaves the value of the function. -/
private theorem call_reaches {callee : String} {values : List D} {value : D} {machine : Machine D}
    (delivers : Delivers object arithmetic callee values value)
    (stacked : ∀ (index : Nat) value, values[index]? = some value →
      machine.memory (machine.top + 16 * (values.length - 1 - index)) = some (.double value))
    (code : object.HasCode machine.place (Emission.call callee values.length)) :
    ∃ after, machine.Reaches object arithmetic after ∧
      after.place = machine.place.skip (Emission.call callee values.length).length ∧
      after.base = machine.base ∧ after.top = machine.top + 16 * values.length ∧
      after.doubles 0 = value ∧
      ∀ address, machine.top + 16 * values.length ≤ address →
        after.memory address = machine.memory address := by
  -- The function is entered and left, and then the arguments are dropped.
  rw [Emission.call_eq] at code
  obtain ⟨called, toCalled, entered, base, top, waits, kept⟩ :=
    call_enters object arithmetic delivers.exists_routine stacked code
  obtain ⟨returning, leaves⟩ := delivers.leaves called entered
  -- The place to go on at is still there, for it is no argument.
  have returnsTo : returning.memory returning.top =
      some (.place (machine.place.skip ((Emission.loads values.length).length + 1))) := by
    rw [leaves.top, leaves.memory called.top (by omega) fun index _ small => .inl (by omega), waits]
  have returns : returning.step object arithmetic = some { returning with
      top := returning.top + 8
      place := machine.place.skip ((Emission.loads values.length).length + 1) } := by
    simp [step, leaves.place, execute, returnsTo]
  -- Behind the call the arguments are dropped.
  have dropping := (Object.hasCode_append.mp code).2.tail
  rw [Place.skip_skip] at dropping
  obtain ⟨after, ran, afterBase, afterTop, doubles, memory⟩ := run_drops object arithmetic
    { returning with
      top := returning.top + 8
      place := machine.place.skip ((Emission.loads values.length).length + 1) } values.length
  have plain : ∀ instruction ∈ Emission.drops values.length, instruction.isPlain = true := by
    intro instruction member
    unfold Emission.drops at member
    split at member
    · cases member
    · rw [List.mem_singleton] at member
      rw [member]
      rfl
  obtain ⟨toAfter, place⟩ := reaches_of_run plain dropping ran
  refine ⟨after, ((toCalled.trans leaves.reaches).tail returns).trans toAfter, ?_, ?_, ?_, ?_, ?_⟩
  · rw [place, Place.skip_skip, Emission.call_eq, List.length_append, List.length_cons]
    congr 1
    omega
  · rw [afterBase, leaves.base, base]
  · simp only [afterTop, leaves.top, top]
    omega
  · rw [doubles, leaves.value]
  · -- Above the arguments nothing is ever written.
    intro address above
    rw [memory, leaves.memory address (by omega) fun index _ small => .inr (by omega),
      kept address (by omega)]

end Machine

/-- As many values are found as there are expressions. -/
private theorem Expr.length_values? {α : Type} {context : Context D} {store : Table D}
    {args : List (Expr α)} {values : List D}
    (found : Expr.values? context store args = some values) : values.length = args.length := by
  -- Each expression adds one value.
  induction args generalizing values with
  | nil =>
    cases found
    rfl
  | cons arg rest ih =>
    obtain ⟨value, -, others⟩ := Option.bind_eq_some_iff.mp found
    obtain ⟨later, rested, same⟩ := Option.bind_eq_some_iff.mp others
    cases same
    simp [ih rested]

/-- The place of a name that is read is its slot. -/
theorem Emission.place_of_mem {frame : Frame} {name : String} {offset : Int}
    (read : name ∈ frame.reads) (slot : frame.slots.get? name = some offset) :
    Emission.place frame name = Emission.frameCell offset := by
  simp [Emission.place, slot, read]

/-- The place of a name that is not read is among the data. -/
theorem Emission.place_of_not_mem {frame : Frame} {name : String} (unread : name ∉ frame.reads) :
    Emission.place frame name = Emission.symbol name := by
  -- A slot is passed over if the name is not read.
  unfold Emission.place
  split
  · simp [unread]
  · rfl

/-- Code that loads a double lands with it. -/
private theorem lands_of_load {object : Object} {arithmetic : Arithmetic D} {machine : Machine D}
    {source : Operand} {value : D}
    (found : machine.double? object arithmetic source = some value)
    (code : object.HasCode machine.place [Emission.load source]) :
    Lands object arithmetic machine 1 value (machine.setDouble 0 value).next := by
  -- Loading changes one register and moves on.
  obtain ⟨reaches, place⟩ :=
    Machine.reaches_of_run (by simp [Emission.load, Instruction.isPlain]) code
      (Machine.run_load object arithmetic found)
  exact ⟨reaches, place, rfl, rfl, by simp [Machine.next, Machine.setDouble], fun _ _ => rfl⟩

/-- A value that is put on the stack lies on its top, and nothing above has changed. -/
theorem Lands.spill {object : Object} {arithmetic : Arithmetic D} {machine after : Machine D}
    {count : Nat} {value : D} (lands : Lands object arithmetic machine count value after)
    (code : object.HasCode (machine.place.skip count) Emission.spill) :
    ∃ waiting, Stacks object arithmetic machine (count + Emission.spill.length) [value]
      waiting := by
  -- The value is written below the old top, so nothing from there on changes.
  rw [← lands.place] at code
  obtain ⟨reaches, place⟩ :=
    Machine.reaches_of_run (by simp [Emission.spill, Instruction.isPlain]) code
      (Machine.run_spill object arithmetic after)
  refine ⟨_, lands.reaches.trans reaches, ?_, lands.base, ?_, ?_, ?_⟩
  · rw [place, lands.place, Place.skip_skip]
  · simp [lands.top]
  · intro index found given
    obtain ⟨rfl, rfl⟩ : index = 0 ∧ found = value := by
      cases index with
      | zero => simpa [eq_comm] using given
      | succ index => simp at given
    simp [lands.value]
  · intro address above
    -- The cell written is a whole pair below the top that the expression left.
    have top := lands.top
    have apart : Apart address (after.top - 16) := .inr (by omega)
    simp only [Memory.write_of_apart _ _ apart, lands.memory address above]

/-- Values on the stack leave a store represented. -/
theorem Stacks.represents {object : Object} {arithmetic : Arithmetic D}
    {machine after : Machine D} {count : Nat} {values : List D} {frame : Frame} {store : Table D}
    (onStack : Stacks object arithmetic machine count values after)
    (represents : Represents frame store machine) : Represents frame store after := by
  -- Values on the stack only lower its top.
  have top := onStack.top
  exact represents.of_keep onStack.base (by omega) onStack.memory

/-- An operand that waits and one that has been computed are joined. -/
theorem Stacks.combine {object : Object} {arithmetic : Arithmetic D}
    {machine waiting computed : Machine D} {count more : Nat} {left right : D} {op : BinaryOp}
    (onStack : Stacks object arithmetic machine count [left] waiting)
    (lands : Lands object arithmetic waiting more right computed)
    (code : object.HasCode (machine.place.skip (count + more)) (Emission.combine op)) :
    ∃ after, Lands object arithmetic machine (count + more + (Emission.combine op).length)
      (arithmetic.apply op left right) after := by
  -- The code that joins them stands behind both.
  have place : computed.place = machine.place.skip (count + more) := by
    rw [lands.place, onStack.place, Place.skip_skip]
  have lower := onStack.top
  simp only [List.length_singleton] at lower
  -- The waiting operand is still on the top of the stack.
  have waits : computed.memory computed.top = some (.double left) := by
    have cell := onStack.values 0 left rfl
    simp only [List.length_singleton] at cell
    rw [lands.memory computed.top (Int.le_of_eq lands.top.symm), lands.top, ← cell]
    congr 1
    omega
  obtain ⟨after, ran, base, top, memory, value⟩ :=
    Machine.run_combine object arithmetic op waits
  rw [← place] at code
  obtain ⟨reaches, moved⟩ := Machine.reaches_of_run (by
    cases op <;> simp [Emission.combine, Emission.load, Emission.arithmetic, Instruction.isPlain])
    code ran
  refine ⟨after, (onStack.reaches.trans lands.reaches).trans reaches, ?_, ?_, ?_, ?_, ?_⟩
  · rw [moved, place, Place.skip_skip]
  · rw [base, lands.base, onStack.base]
  · rw [top, lands.top, lower]
    omega
  · rw [value, lands.value]
  · intro address above
    rw [memory, lands.memory address (by omega), onStack.memory address above]

/-- A value in front of others on the stack. -/
theorem Stacks.cons {object : Object} {arithmetic : Arithmetic D}
    {machine waiting after : Machine D} {count more : Nat} {value : D} {values : List D}
    (first : Stacks object arithmetic machine count [value] waiting)
    (rest : Stacks object arithmetic waiting more values after) :
    Stacks object arithmetic machine (count + more) (value :: values) after := by
  -- Each value takes sixteen bytes, from the old top downwards.
  have top := rest.top
  have lower := first.top
  simp only [List.length_singleton] at lower
  refine ⟨first.reaches.trans rest.reaches, ?_, ?_, ?_, ?_, ?_⟩
  · rw [rest.place, first.place, Place.skip_skip]
  · rw [rest.base, first.base]
  · simp only [List.length_cons]
    omega
  · intro index found given
    cases index with
    | zero =>
      -- The first value lies above all that came later.
      cases given
      have cell := first.values 0 value rfl
      simp only [List.length_singleton] at cell
      rw [rest.memory _ (by simp only [List.length_cons]; omega), ← cell]
      simp only [List.length_cons]
      congr 1
      omega
    | succ index =>
      have cell := rest.values index found (by simpa using given)
      rw [← cell]
      simp only [List.length_cons]
      congr 1
      omega
  · intro address above
    rw [rest.memory address (by omega), first.memory address above]

section Expressions

variable {α : Type} {object : Object} {context : Context D} {frame : Frame} {store : Table D}

/-- The code of a name lands with its value. -/
private theorem name_lands (linked : Linked object context)
    (own : ∀ name ∈ frame.reads, context.constant? name = none) {name : String}
    {machine : Machine D} {value : D}
    (known : (store.get? name).isSome = true → name ∈ frame.reads)
    (represents : Represents frame store machine)
    (code : object.HasCode machine.place [Emission.load (Emission.place frame name)])
    (found : (store.get? name).or (context.constant? name) = some value) :
    ∃ after, Lands object context.toArithmetic machine 1 value after := by
  -- The load finds the value where the name is placed.
  refine ⟨_, lands_of_load ?_ code⟩
  by_cases read : name ∈ frame.reads
  · -- A name that is read is no constant, so its value is in the store.
    rw [own name read, Option.or_none] at found
    obtain ⟨offset, slot, -, cell⟩ := represents.kept name read value found
    simp [Emission.place_of_mem read slot, Emission.frameCell, Machine.double?, Machine.address?,
      cell]
  · -- A name that is not read has no value in the store, so it is a constant.
    have absent : store.get? name = none := by
      cases stored : store.get? name with
      | none => rfl
      | some other => exact absurd (known (by simp [stored])) read
    rw [absent, Option.none_or] at found
    rw [Emission.place_of_not_mem read]
    exact linked.constants found

mutual

/-- The code of an expression lands with its value. -/
theorem expr_lands (function : String) (linked : Linked object context)
    (own : ∀ name ∈ frame.reads, context.constant? name = none) :
    ∀ (expr : Expr α) {number : Nat} {machine : Machine D} {value : D},
      Pooled object function number expr.literals →
      (∀ name ∈ expr.names, (store.get? name).isSome = true → name ∈ frame.reads) →
      Represents frame store machine →
      object.HasCode machine.place (Emission.expr function frame number expr) →
      expr.value? context store = some value →
      ∃ after, Lands object context.toArithmetic machine
        (Emission.expr function frame number expr).length value after
  | .literal _ text, number, machine, value, pooled, _, _, code, found => by
    -- The literal is the first of its own expression.
    have datum := pooled 0 text rfl
    refine ⟨_, lands_of_load ?_ code⟩
    simp only [Expr.value?, Option.some.injEq] at found
    rw [Nat.add_zero] at datum
    simp [Emission.symbol, Machine.double?, datum, found]
  | .name _ known, number, machine, value, _, names, represents, code, found =>
    name_lands linked own (names known (by simp [Expr.names])) represents code found
  | .binary _ op left right, number, machine, value, pooled, names, represents, code, found => by
    obtain ⟨first, leftFound, others⟩ := Option.bind_eq_some_iff.mp found
    obtain ⟨second, rightFound, same⟩ := Option.bind_eq_some_iff.mp others
    cases same
    -- Literals of the right operand are numbered behind those of the left one.
    obtain ⟨leftPooled, rightPooled⟩ := pooled_append pooled
    rw [Expr.length_literals] at rightPooled
    rw [Emission.expr, Object.hasCode_append, Object.hasCode_append, Object.hasCode_append] at code
    obtain ⟨leftCode, spillCode, rightCode, combineCode⟩ := code
    obtain ⟨leftAfter, leftLands⟩ := expr_lands function linked own left leftPooled
      (fun name member => names name (List.mem_append_left _ member)) represents leftCode leftFound
    -- The left operand waits on the stack, where the right one does not reach.
    obtain ⟨waiting, onStack⟩ := leftLands.spill spillCode
    rw [Place.skip_skip] at rightCode combineCode
    obtain ⟨rightAfter, rightLands⟩ := expr_lands function linked own right rightPooled
      (fun name member => names name (List.mem_append_right _ member))
      (onStack.represents represents) (by rw [onStack.place]; exact rightCode) rightFound
    rw [Place.skip_skip, ← Nat.add_assoc] at combineCode
    obtain ⟨after, lands⟩ := onStack.combine rightLands combineCode
    refine ⟨after, ?_⟩
    simp only [Emission.expr, List.length_append, ← Nat.add_assoc]
    exact lands
  | .call _ callee args, number, machine, value, pooled, names, represents, code, found => by
    obtain ⟨values, argsFound, called⟩ := Option.bind_eq_some_iff.mp found
    rw [Emission.expr, Object.hasCode_append] at code
    obtain ⟨argsCode, callCode⟩ := code
    obtain ⟨stacked, onStack⟩ := args_stack function linked own args pooled names represents
      argsCode argsFound
    -- The call drops what the arguments have put on the stack.
    have lower := onStack.top
    rw [← Expr.length_values? argsFound, ← onStack.place] at callCode
    obtain ⟨after, reaches, place, base, top, landed, memory⟩ :=
      Machine.call_reaches (linked.calls called) onStack.values callCode
    refine ⟨after, onStack.reaches.trans reaches, ?_, ?_, ?_, landed, ?_⟩
    · rw [place, onStack.place, Place.skip_skip, Emission.expr, List.length_append,
        Expr.length_values? argsFound]
    · rw [base, onStack.base]
    · rw [top, lower]
      omega
    · intro address above
      rw [memory address (by omega), onStack.memory address above]
  | .group _ inner, number, machine, value, pooled, names, represents, code, found =>
    expr_lands function linked own inner pooled names represents code found

/-- The code of arguments puts their values on the stack. -/
private theorem args_stack (function : String) (linked : Linked object context)
    (own : ∀ name ∈ frame.reads, context.constant? name = none) :
    ∀ (args : List (Expr α)) {number : Nat} {machine : Machine D} {values : List D},
      Pooled object function number (Expr.literalsOfAll args) →
      (∀ name ∈ Expr.namesOfAll args, (store.get? name).isSome = true → name ∈ frame.reads) →
      Represents frame store machine →
      object.HasCode machine.place (Emission.spilled function frame number args) →
      Expr.values? context store args = some values →
      ∃ after, Stacks object context.toArithmetic machine
        (Emission.spilled function frame number args).length values after
  | [], number, machine, values, _, _, _, _, found => by
    cases found
    exact ⟨machine, .refl, rfl, rfl, by simp, by simp, fun _ _ => rfl⟩
  | arg :: rest, number, machine, values, pooled, names, represents, code, found => by
    obtain ⟨value, argFound, others⟩ := Option.bind_eq_some_iff.mp found
    obtain ⟨later, restFound, same⟩ := Option.bind_eq_some_iff.mp others
    cases same
    obtain ⟨argPooled, restPooled⟩ := pooled_append pooled
    rw [Expr.length_literals] at restPooled
    rw [Emission.spilled, Object.hasCode_append, Object.hasCode_append] at code
    obtain ⟨argCode, spillCode, restCode⟩ := code
    -- Each argument is computed and put on the stack before the next one is.
    obtain ⟨argAfter, lands⟩ := expr_lands function linked own arg argPooled
      (fun name member => names name (List.mem_append_left _ member)) represents argCode argFound
    obtain ⟨waiting, onStack⟩ := lands.spill spillCode
    rw [Place.skip_skip] at restCode
    obtain ⟨after, rested⟩ := args_stack function linked own rest restPooled
      (fun name member => names name (List.mem_append_right _ member))
      (onStack.represents represents) (by rw [onStack.place]; exact restCode) restFound
    refine ⟨after, ?_⟩
    rw [Emission.spilled, List.length_append, List.length_append, ← Nat.add_assoc]
    exact onStack.cons rested

end

end Expressions

end DoubleLang
