import DoubleLang.Object
import DoubleLang.Proofs.Program.Meaning
import Mathlib.Logic.Function.Basic
import Mathlib.Logic.Relation

/-!
A machine that runs compiled programs over any kind of doubles.

The stack has no bounds and grows downwards. Its cells are eight bytes each, and writing one of them
spoils every other cell that it overlaps.
-/

namespace DoubleLang

/-- A place in the code of an object. -/
structure Place where
  routine : String
  index : Nat
  deriving DecidableEq, Repr

/-- The place behind a number of instructions. -/
def Place.skip (place : Place) (count : Nat) : Place :=
  ⟨place.routine, place.index + count⟩

/-- What a cell of the stack holds. -/
inductive Cell (D : Type) where
  | double (value : D)
  | address (value : Int)
  /-- Where a routine goes on after a call. -/
  | place (value : Place)

/-- The cells at the addresses where one is intact. -/
abbrev Memory (D : Type) := Int → Option (Cell D)

/-- Cells that have no byte in common. -/
def Apart (address other : Int) : Prop :=
  address + 8 ≤ other ∨ other + 8 ≤ address

instance (address other : Int) : Decidable (Apart address other) :=
  inferInstanceAs (Decidable (_ ∨ _))

/-- Writes a cell. -/
def Memory.write {D : Type} (memory : Memory D) (address : Int) (cell : Cell D) : Memory D :=
  -- A cell that overlaps the written one loses what it held.
  fun other =>
    if other = address then some cell else if Apart other address then memory other else none

/-- A machine: the place in the code, the registers and the stack. -/
structure Machine (D : Type) where
  place : Place
  /-- The base of the frame. -/
  base : Int
  /-- The top of the stack, which is its lowest address. -/
  top : Int
  doubles : DoubleRegister → D
  memory : Memory D

namespace Object

/-- The code of a function. -/
def routine? (object : Object) (name : String) : Option Routine :=
  object.routines.find? (·.name == name)

/-- The instruction at a place. -/
def instruction? (object : Object) (place : Place) : Option Instruction := do
  let routine ← object.routine? place.routine
  routine.instructions[place.index]?

/-- The text of the data with a name. -/
def datum? (object : Object) (name : String) : Option String :=
  (object.data.find? (·.name == name)).map (·.value)

end Object

namespace Machine

variable {D : Type}

/-- The machine at the next place. -/
def next (machine : Machine D) : Machine D :=
  { machine with place := machine.place.skip 1 }

/-- The address in a register, if its value is one. -/
def address? (machine : Machine D) : AddressRegister → Option Int
  | .rbp => some machine.base
  | .rsp => some machine.top
  | .rip => none

/-- Sets a register to an address. -/
def setAddress? (machine : Machine D) (register : AddressRegister) (value : Int) :
    Option (Machine D) :=
  match register with
  | .rbp => some { machine with base := value }
  | .rsp => some { machine with top := value }
  | .rip => none

/-- Sets a register to a double. -/
def setDouble (machine : Machine D) (register : DoubleRegister) (value : D) : Machine D :=
  { machine with doubles := Function.update machine.doubles register value }

/-- Puts a cell on the stack. -/
def push (machine : Machine D) (cell : Cell D) : Machine D :=
  { machine with top := machine.top - 8, memory := machine.memory.write (machine.top - 8) cell }

/-- The double that an operand stands for: in a register, on the stack or among the data. -/
def double? (object : Object) (arithmetic : Arithmetic D) (machine : Machine D) :
    Operand → Option D
  | .register (.double register) => some (machine.doubles register)
  | .memory base (.bytes offset) => do
    let address ← machine.address? base
    match machine.memory (address + offset) with
    -- An address or a place is no double.
    | some (.double value) => some value
    | _ => none
  | .memory .rip (.symbol name) => (object.datum? name).map arithmetic.read
  | _ => none

/-- Runs an instruction; there is no outcome if it makes no sense. -/
def execute (object : Object) (arithmetic : Arithmetic D) (machine : Machine D) :
    Instruction → Option (Machine D)
  | ⟨.push, [.register (.address source)]⟩ => do
    let value ← machine.address? source
    return (machine.push (.address value)).next
  | ⟨.mov, [.register (.address source), .register (.address target)]⟩ => do
    let value ← machine.address? source
    return (← machine.setAddress? target value).next
  | ⟨.sub, [.immediate bytes, .register (.address target)]⟩ => do
    let value ← machine.address? target
    return (← machine.setAddress? target (value - bytes)).next
  | ⟨.add, [.immediate bytes, .register (.address target)]⟩ => do
    let value ← machine.address? target
    return (← machine.setAddress? target (value + bytes)).next
  -- Doubles move to a register from anywhere, and to the stack from a register only.
  | ⟨.movsd, [source, .register (.double target)]⟩ => do
    let value ← machine.double? object arithmetic source
    return (machine.setDouble target value).next
  | ⟨.movsd, [.register (.double source), .memory base (.bytes offset)]⟩ => do
    let address ← machine.address? base
    let cell := Cell.double (machine.doubles source)
    return { machine with memory := machine.memory.write (address + offset) cell }.next
  | ⟨.movaps, [.register (.double source), .register (.double target)]⟩ =>
    some (machine.setDouble target (machine.doubles source)).next
  | ⟨.addsd, [source, .register (.double target)]⟩ => operate arithmetic.add source target
  | ⟨.subsd, [source, .register (.double target)]⟩ => operate arithmetic.subtract source target
  | ⟨.mulsd, [source, .register (.double target)]⟩ => operate arithmetic.multiply source target
  | ⟨.divsd, [source, .register (.double target)]⟩ => operate arithmetic.divide source target
  -- A call leaves the place behind it on the stack.
  | ⟨.callq, [.label callee]⟩ =>
    if (object.routine? callee).isSome then
      some { machine.push (.place (machine.place.skip 1)) with place := ⟨callee, 0⟩ }
    else none
  -- The base of the caller is kept in the cell at the base of the frame.
  | ⟨.leaveq, []⟩ => do
    let .address base ← machine.memory machine.base | none
    return { machine with top := machine.base + 8, base }.next
  | ⟨.retq, []⟩ => do
    let .place place ← machine.memory machine.top | none
    return { machine with top := machine.top + 8, place }
  | _ => none
where
  /-- Joins a register, as the first operand, with another operand. -/
  operate (operation : D → D → D) (source : Operand) (target : DoubleRegister) :
      Option (Machine D) := do
    let value ← machine.double? object arithmetic source
    return (machine.setDouble target (operation (machine.doubles target) value)).next

/-- Runs the instruction at the place where the machine is. -/
def step (object : Object) (arithmetic : Arithmetic D) (machine : Machine D) :
    Option (Machine D) := do
  let instruction ← object.instruction? machine.place
  machine.execute object arithmetic instruction

/-- A machine comes to be another by any number of steps. -/
def Reaches (object : Object) (arithmetic : Arithmetic D) : Machine D → Machine D → Prop :=
  Relation.ReflTransGen fun before after => before.step object arithmetic = some after

end Machine

/-- Skipping no instruction. -/
@[simp] theorem Place.skip_zero (place : Place) : place.skip 0 = place := rfl

/-- Skipping instructions in two turns. -/
@[simp] theorem Place.skip_skip (place : Place) (first second : Nat) :
    (place.skip first).skip second = place.skip (first + second) := by
  simp [Place.skip, Nat.add_assoc]

/-- A cell holds what is written to it. -/
@[simp] theorem Memory.write_self {D : Type} (memory : Memory D) (address : Int) (cell : Cell D) :
    memory.write address cell address = some cell := by
  simp [Memory.write]

/-- A cell apart from the one that is written stays as it was. -/
theorem Memory.write_of_apart {D : Type} (memory : Memory D) {address other : Int} (cell : Cell D)
    (apart : Apart other address) : memory.write address cell other = memory other := by
  -- A cell apart is another cell, and it is not spoiled.
  have differ : other ≠ address := by
    rintro rfl
    rcases apart with low | high <;> omega
  simp [Memory.write, differ, apart]

namespace Object

variable {object : Object} {place : Place}

/-- Code stands in an object from a place on. -/
def HasCode (object : Object) (place : Place) (code : List Instruction) : Prop :=
  ∀ offset instruction, code[offset]? = some instruction →
    object.instruction? (place.skip offset) = some instruction

/-- Code in two parts stands in an object when both do, one behind the other. -/
theorem hasCode_append {first second : List Instruction} :
    object.HasCode place (first ++ second) ↔
      object.HasCode place first ∧ object.HasCode (place.skip first.length) second := by
  constructor
  · intro whole
    -- Both parts keep their order, and the second is counted from its own start.
    constructor
    · intro offset instruction found
      refine whole offset instruction ?_
      rw [List.getElem?_append_left (List.getElem?_eq_some_iff.mp found).1, found]
    · intro offset instruction found
      rw [Place.skip_skip]
      refine whole (first.length + offset) instruction ?_
      rw [List.getElem?_append_right (by omega), Nat.add_sub_cancel_left, found]
  · rintro ⟨front, back⟩ offset instruction found
    -- An instruction is in the first part, or it stands behind it.
    by_cases early : offset < first.length
    · exact front offset instruction (by rwa [List.getElem?_append_left early] at found)
    · rw [List.getElem?_append_right (by omega)] at found
      have later := back (offset - first.length) instruction found
      rwa [Place.skip_skip, Nat.add_sub_cancel' (by omega)] at later

/-- The first instruction of code is at its place. -/
theorem HasCode.head {instruction : Instruction} {rest : List Instruction}
    (code : object.HasCode place (instruction :: rest)) :
    object.instruction? place = some instruction :=
  code 0 instruction rfl

/-- The other instructions of code follow the first. -/
theorem HasCode.tail {instruction : Instruction} {rest : List Instruction}
    (code : object.HasCode place (instruction :: rest)) : object.HasCode (place.skip 1) rest := by
  -- The first instruction is a part of its own.
  rw [← List.singleton_append, hasCode_append] at code
  exact code.2

end Object

/-- Whether an instruction is followed by the one behind it. -/
def Instruction.isPlain (instruction : Instruction) : Bool :=
  !([.callq, .retq].contains instruction.mnemonic)

namespace Machine

variable {D : Type} {object : Object} {arithmetic : Arithmetic D}

/-- Setting an address leaves the machine where it is. -/
private theorem place_of_setAddress? {machine after : Machine D} {register : AddressRegister}
    {value : Int}
    (made : machine.setAddress? register value = some after) : after.place = machine.place := by
  -- Either register is set beside the place.
  cases register with
  | rbp => cases made; rfl
  | rsp => cases made; rfl
  | rip => cases made

/-- An operation leaves the machine at the next place. -/
private theorem place_of_operate {machine after : Machine D} {operation : D → D → D}
    {source : Operand}
    {target : DoubleRegister}
    (made : execute.operate object arithmetic machine operation source target = some after) :
    after.place = machine.place.skip 1 := by
  -- The outcome goes to a register, and the machine moves on.
  obtain ⟨value, -, same⟩ := Option.bind_eq_some_iff.mp made
  cases same
  rfl

/-- A plain instruction leaves the machine at the next place. -/
private theorem place_of_execute {machine after : Machine D} {instruction : Instruction}
    (plain : instruction.isPlain = true)
    (ran : machine.execute object arithmetic instruction = some after) :
    after.place = machine.place.skip 1 := by
  -- Setting an address does not move the machine, so what follows it is the next place.
  have addressed : ∀ {register : AddressRegister} {value : Int},
      (do return (← machine.setAddress? register value).next) = some after →
      after.place = machine.place.skip 1 := by
    intro register value made
    obtain ⟨middle, set, same⟩ := Option.bind_eq_some_iff.mp made
    cases same
    exact congrArg (Place.skip · 1) (place_of_setAddress? set)
  unfold execute at ran
  split at ran
  · -- A push.
    obtain ⟨value, -, same⟩ := Option.bind_eq_some_iff.mp ran
    cases same
    rfl
  · obtain ⟨value, -, set⟩ := Option.bind_eq_some_iff.mp ran
    exact addressed set
  · obtain ⟨value, -, set⟩ := Option.bind_eq_some_iff.mp ran
    exact addressed set
  · obtain ⟨value, -, set⟩ := Option.bind_eq_some_iff.mp ran
    exact addressed set
  · -- A double to a register.
    obtain ⟨value, -, same⟩ := Option.bind_eq_some_iff.mp ran
    cases same
    rfl
  · -- A double to the stack.
    obtain ⟨address, -, same⟩ := Option.bind_eq_some_iff.mp ran
    cases same
    rfl
  · cases ran
    rfl
  · exact place_of_operate ran
  · exact place_of_operate ran
  · exact place_of_operate ran
  · exact place_of_operate ran
  · simp [Instruction.isPlain] at plain
  · -- The frame is closed.
    obtain ⟨cell, -, closed⟩ := Option.bind_eq_some_iff.mp ran
    split at closed
    · cases closed
      rfl
    · cases closed
  · simp [Instruction.isPlain] at plain
  · cases ran

/-- Runs instructions one after the other. -/
def run (object : Object) (arithmetic : Arithmetic D) (machine : Machine D)
    (code : List Instruction) : Option (Machine D) :=
  code.foldlM (fun machine instruction => machine.execute object arithmetic instruction) machine

/-- A machine at plain code that runs comes to be what the run makes of it, behind the code. -/
theorem reaches_of_run {code : List Instruction} {machine after : Machine D}
    (plain : ∀ instruction ∈ code, instruction.isPlain = true)
    (stands : object.HasCode machine.place code)
    (ran : machine.run object arithmetic code = some after) :
    machine.Reaches object arithmetic after ∧ after.place = machine.place.skip code.length := by
  -- Each instruction moves the machine to where the rest of the code stands.
  induction code generalizing machine with
  | nil =>
    cases ran
    exact ⟨.refl, rfl⟩
  | cons instruction rest ih =>
    obtain ⟨middle, first, others⟩ := Option.bind_eq_some_iff.mp ran
    have moved := place_of_execute (plain instruction (by simp)) first
    have stepped : machine.step object arithmetic = some middle := by
      simp [step, stands.head, first]
    -- The rest of the code stands where the machine is now.
    obtain ⟨reaches, place⟩ := ih (fun other member => plain other (by simp [member]))
      (moved ▸ stands.tail) others
    refine ⟨.head stepped reaches, ?_⟩
    rw [place, moved, Place.skip_skip, List.length_cons, Nat.add_comm]

end Machine

end DoubleLang
