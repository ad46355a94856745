import DoubleLang.Proofs.Frame.Slots
import DoubleLang.Proofs.Object.Simulation

/-!
The code of a function leaves what the function returns.

Opening a frame brings every parameter that is read to its slot. Assignments without code are to
names that nothing reads, so the slots go on holding the values of all that is read.
-/

namespace DoubleLang

variable {D α : Type}

/-- A machine that has come behind the code of a body, with a value in the first register; only
slots have changed above the top of the stack. -/
structure Completes (object : Object) (arithmetic : Arithmetic D) (frame : Frame)
    (machine : Machine D) (count : Nat) (value : D) (after : Machine D) : Prop where
  reaches : machine.Reaches object arithmetic after
  place : after.place = machine.place.skip count
  base : after.base = machine.base
  top : after.top = machine.top
  value : after.doubles 0 = value
  memory : ∀ address, machine.top ≤ address →
    (∀ name offset, frame.slots.get? name = some offset →
      Apart address (machine.base + offset)) →
    after.memory address = machine.memory address

/-- What the live statements of a body ask of a frame in a scope. -/
structure Covers (frame : Frame) (scope : Scope) (live : List (Statement α)) : Prop where
  reads : ∀ statement ∈ live, Emission.hasCode frame statement = true →
    ∀ name ∈ statement.value.names, name ∈ scope.names → name ∈ frame.reads
  targets : ∀ target ∈ Statement.targets live, target ∈ scope.names ∧
    (target ∈ frame.reads → (frame.slots.get? target).isSome = true)

/-- What is asked for statements is asked for the later ones. -/
theorem Covers.tail {frame : Frame} {scope : Scope} {statement : Statement α}
    {rest : List (Statement α)} (covers : Covers frame scope (statement :: rest)) :
    Covers frame scope rest := by
  -- Later statements are among all of them, and so are their targets.
  refine ⟨fun other member => covers.reads other (by simp [member]), ?_⟩
  intro target member
  refine covers.targets target ?_
  obtain ⟨other, there, found⟩ := List.mem_filterMap.mp member
  exact List.mem_filterMap.mpr ⟨other, by simp [there], found⟩

/-- A store that gets a value nobody reads is represented as before. -/
private theorem Represents.set_of_not_mem {frame : Frame} {store : Table D} {machine : Machine D}
    {target : String} (represents : Represents frame store machine)
    (unread : target ∉ frame.reads) (value : D) :
    Represents frame (store.set target value) machine := by
  -- A name that is read is not the target, so its value is the old one.
  refine ⟨represents.room, ?_⟩
  intro name read other found
  have differ : name ≠ target := by
    rintro rfl
    exact unread read
  rw [Table.get?_set_of_ne _ _ differ] at found
  exact represents.kept name read other found

/-- A store that gets a value is represented once the value is written to its slot. -/
theorem Represents.set {function : Function α} {frame : Frame} {used : Nat} {store : Table D}
    {machine : Machine D} {target : String} {offset : Int}
    (represents : Represents frame store machine) (serves : Frame.Serves function frame used)
    (slot : frame.slots.get? target = some offset) (value : D) (place : Place) :
    Represents frame (store.set target value) { machine with
      place, memory := machine.memory.write (machine.base + offset) (.double value) } := by
  -- The slot of the target holds the value, and no other slot has changed.
  refine ⟨represents.room, ?_⟩
  intro name read other found
  by_cases same : name = target
  · subst same
    rw [Table.get?_set_self, Option.some.injEq] at found
    exact ⟨offset, slot, serves.low slot, by simp [found]⟩
  · -- The slots of other names do not overlap the one that is written.
    rw [Table.get?_set_of_ne _ _ same] at found
    obtain ⟨other, otherSlot, inside, cell⟩ := represents.kept name read other found
    have apart : Apart (machine.base + other) (machine.base + offset) := by
      have slots := serves.apart otherSlot slot same
      simp only [Frame.slotSize] at slots
      rcases slots with low | high
      · exact .inl (by omega)
      · exact .inr (by omega)
    exact ⟨other, otherSlot, inside, by simp only [Memory.write_of_apart _ _ apart, cell]⟩

/-- Keeping the value in a cell of the frame. -/
private theorem Machine.run_keep (object : Object) (arithmetic : Arithmetic D) (machine : Machine D)
    (offset : Int) :
    machine.run object arithmetic [⟨.movsd, [Emission.double 0, Emission.frameCell offset]⟩] =
      some { machine with
        place := machine.place.skip 1
        memory := machine.memory.write (machine.base + offset) (.double (machine.doubles 0)) } := by
  simp [run, Emission.double, Emission.frameCell, execute, address?, next]

section Body

variable {object : Object} {context : Context D} {function : Function α} {frame : Frame}
  {used : Nat} {scope : Scope}

/-- The code of an assignment to a name that is read brings its value to its slot. -/
private theorem assign_completes (serves : Frame.Serves function frame used)
    (linked : Linked object context) (own : ∀ name ∈ frame.reads, context.constant? name = none)
    {store : Table D} {machine : Machine D} {number : Nat} {note : α} {target : String}
    {expr : Expr α} {value : D} (read : target ∈ frame.reads)
    (placed : (frame.slots.get? target).isSome = true)
    (known : ∀ name ∈ expr.names, (store.get? name).isSome = true → name ∈ frame.reads)
    (pooled : Pooled object function.name number expr.literals)
    (represents : Represents frame store machine)
    (code : object.HasCode machine.place
      (Emission.statement function.name frame number (.assign note target expr)))
    (found : expr.value? context store = some value) :
    ∃ after, Completes object context.toArithmetic frame machine
        (Emission.statement function.name frame number (.assign note target expr)).length value
        after ∧
      Represents frame (store.set target value) after := by
  -- The value is computed first, and then brought to the slot of the target.
  obtain ⟨offset, slot⟩ := Option.isSome_iff_exists.mp placed
  rw [Emission.statement, Emission.place_of_mem read slot, Object.hasCode_append] at code
  obtain ⟨computing, keeping⟩ := code
  -- The expression leaves the stack and the slots as they were.
  obtain ⟨computed, lands⟩ := expr_lands function.name linked own expr pooled known represents
    computing found
  rw [← lands.place] at keeping
  obtain ⟨reaches, place⟩ := Machine.reaches_of_run (by simp [Instruction.isPlain, Emission.store])
    keeping (Machine.run_keep object context.toArithmetic computed offset)
  have still := represents.of_keep lands.base (Int.le_of_eq lands.top) lands.memory
  refine ⟨_, ⟨lands.reaches.trans reaches, ?_, lands.base, lands.top, lands.value, ?_⟩,
    lands.value ▸ still.set serves slot (computed.doubles 0) _⟩
  · rw [place, lands.place, Place.skip_skip, Emission.statement, List.length_append]
    rfl
  · intro address above apart
    have clear := apart target offset slot
    rw [← lands.base] at clear
    simp only [Memory.write_of_apart _ _ clear, lands.memory address above]

/-- An expression lands as a body does that changes no slot. -/
theorem Lands.completes {arithmetic : Arithmetic D} {machine after : Machine D} {count : Nat}
    {value : D} (lands : Lands object arithmetic machine count value after) (frame : Frame) :
    Completes object arithmetic frame machine count value after :=
  ⟨lands.reaches, lands.place, lands.base, lands.top, lands.value,
    fun address above _ => lands.memory address above⟩

/-- A body goes on behind a statement. -/
theorem Completes.trans {arithmetic : Arithmetic D} {machine middle after : Machine D}
    {count more : Nat} {value result : D}
    (first : Completes object arithmetic frame machine count value middle)
    (second : Completes object arithmetic frame middle more result after) :
    Completes object arithmetic frame machine (count + more) result after := by
  -- Neither part changes a cell that is no slot.
  have top := first.top
  refine ⟨first.reaches.trans second.reaches, ?_, ?_, ?_, second.value, ?_⟩
  · rw [second.place, first.place, Place.skip_skip]
  · rw [second.base, first.base]
  · rw [second.top, first.top]
  · intro address above apart
    rw [second.memory address (by omega) (by rw [first.base]; exact apart),
      first.memory address above apart]

/-- The code of live statements leaves what the body returns. -/
private theorem body_completes (serves : Frame.Serves function frame used)
    (linked : Linked object context) (own : ∀ name ∈ frame.reads, context.constant? name = none)
    {body : List (Statement α)} {store : Table D} {machine : Machine D} {number : Nat} {value : D}
    (covers : Covers frame scope (Statement.live body))
    (stored : ∀ name, (store.get? name).isSome = true → name ∈ scope.names)
    (pooled : Pooled object function.name number
      ((Statement.live body).flatMap (·.value.literals)))
    (represents : Represents frame store machine)
    (code : object.HasCode machine.place
      (Emission.statements function.name frame number (Statement.live body)))
    (found : Statement.result? context store body = some value) :
    ∃ after, Completes object context.toArithmetic frame machine
      (Emission.statements function.name frame number (Statement.live body)).length value
      after := by
  -- The store and the machine go on together, statement by statement.
  induction body generalizing store machine number with
  | nil => cases found
  | cons statement rest ih =>
    cases statement with
    | returns note expr =>
      -- The statements behind a return have no code.
      have live : Statement.live (.returns note expr :: rest) = [.returns note expr] := rfl
      rw [live] at covers pooled code ⊢
      simp only [Emission.statements, Emission.hasCode, Emission.statement, if_true,
        List.append_nil] at code ⊢
      obtain ⟨after, lands⟩ := expr_lands function.name linked own expr
        (by simpa [Statement.value] using pooled)
        (fun name member known => covers.reads _ (List.mem_singleton_self _) rfl name member
          (stored name known)) represents code found
      exact ⟨after, lands.completes frame⟩
    | assign note target expr =>
      have live : Statement.live (.assign note target expr :: rest) =
        .assign note target expr :: Statement.live rest := rfl
      rw [live] at covers pooled code ⊢
      -- The value is there for every assignment, with code or without.
      obtain ⟨computed, here, later⟩ := Option.bind_eq_some_iff.mp found
      obtain ⟨exprPooled, restPooled⟩ := pooled_append pooled
      rw [Expr.length_literals] at restPooled
      obtain ⟨listed, placed⟩ :=
        covers.targets target (by simp [Statement.targets, Statement.target?])
      -- The store only ever gets names of the scope.
      have restStored : ∀ name, ((store.set target computed).get? name).isSome = true →
          name ∈ scope.names := by
        intro name known
        by_cases same : name = target
        · exact same ▸ listed
        · rw [Table.get?_set_of_ne _ _ same] at known
          exact stored name known
      simp only [Emission.statements, Statement.value] at code ⊢
      by_cases read : target ∈ frame.reads
      · have coded : Emission.hasCode frame (.assign note target expr) = true := by
          simpa [Emission.hasCode] using read
        rw [if_pos coded, Object.hasCode_append] at code
        obtain ⟨middle, completes, set⟩ := assign_completes serves linked own read (placed read)
          (fun name member known => covers.reads _ (by simp) coded name member (stored name known))
          exprPooled represents code.1 here
        obtain ⟨after, rested⟩ := ih covers.tail restStored restPooled set
          (by rw [completes.place]; exact code.2) later
        refine ⟨after, ?_⟩
        rw [if_pos coded, List.length_append]
        exact completes.trans rested
      · -- Without code the machine stays, and no name that is read has changed.
        have bare : ¬ Emission.hasCode frame (.assign note target expr) = true := by
          simpa [Emission.hasCode] using read
        rw [if_neg bare, List.nil_append] at code ⊢
        exact ih covers.tail restStored restPooled
          (represents.set_of_not_mem read computed) code later

end Body

namespace Machine

variable (object : Object) (arithmetic : Arithmetic D)

/-- Parameters come from their registers to their slots. -/
private theorem run_arrivals {arrivals : List Frame.Arrival} {machine : Machine D}
    (numbered : ∀ arrival ∈ arrivals, arrival.offset = Frame.slotOffset arrival.register.val) :
    ∃ after, machine.run object arithmetic (arrivals.map fun arrival =>
        ⟨.movsd, [Emission.double arrival.register, Emission.frameCell arrival.offset]⟩) =
          some after ∧
      after.base = machine.base ∧ after.top = machine.top ∧
      (∀ address, machine.base ≤ address → after.memory address = machine.memory address) ∧
      ∀ register : DoubleRegister, register ∈ arrivals.map (·.register) ∨
          machine.memory (machine.base + Frame.slotOffset register.val) =
            some (.double (machine.doubles register)) →
        after.memory (machine.base + Frame.slotOffset register.val) =
          some (.double (machine.doubles register)) := by
  -- The slots of all parameters are apart, so no store undoes another.
  induction arrivals generalizing machine with
  | nil => exact ⟨machine, rfl, rfl, rfl, fun _ _ => rfl, by simp⟩
  | cons first rest ih =>
    -- The first parameter is written before the others.
    have here := numbered first (by simp)
    obtain ⟨after, ran, base, top, above, slots⟩ := @ih { machine with
        place := machine.place.skip 1
        memory := machine.memory.write (machine.base + first.offset)
          (.double (machine.doubles first.register)) }
      fun arrival member => numbered arrival (List.mem_cons_of_mem first member)
    refine ⟨after, ?_, base, top, ?_, ?_⟩
    · have kept : machine.execute object arithmetic
          ⟨.movsd, [Emission.double first.register, Emission.frameCell first.offset]⟩ =
            some { machine with
              place := machine.place.skip 1
              memory := machine.memory.write (machine.base + first.offset)
                (.double (machine.doubles first.register)) } := by
        simp [execute, Emission.double, Emission.frameCell, address?, next]
      rw [List.map_cons, run, List.foldlM_cons, kept]
      exact ran
    · intro address high
      have apart : Apart address (machine.base + first.offset) := .inr (by
        simp only [here, Frame.slotOffset, Frame.slotSize]
        omega)
      rw [above address high]
      exact Memory.write_of_apart _ _ apart
    · intro register arrives
      refine slots register ?_
      -- A slot is written here, or will be written, or holds its parameter already.
      by_cases same : register = first.register
      · subst same
        exact .inr (by simp [here])
      · rcases arrives with arrives | holds
        · rw [List.map_cons, List.mem_cons] at arrives
          exact .inl (arrives.resolve_left same)
        · have apart : Apart (machine.base + Frame.slotOffset register.val)
              (machine.base + first.offset) := by
            have numbers : register.val ≠ first.register.val := fun equal => same (Fin.ext equal)
            simp only [Apart, here, Frame.slotOffset, Frame.slotSize]
            omega
          exact .inr (by simp only [Memory.write_of_apart _ _ apart, holds])

/-- The first two instructions keep the base of the caller and set the base of the frame. -/
private theorem run_linking (machine : Machine D) :
    machine.run object arithmetic
        [⟨.push, [Emission.rbp]⟩, ⟨.mov, [Emission.rsp, Emission.rbp]⟩] =
      some { machine with
        place := machine.place.skip 2
        base := machine.top - 8
        top := machine.top - 8
        memory := machine.memory.write (machine.top - 8) (.address machine.base) } := by
  simp [run, Emission.rbp, Emission.rsp, execute, address?, setAddress?, push, next]

/-- Opening a frame keeps the base of the caller and the parameters that arrive in registers. -/
private theorem run_opening {function : Function α} {frame : Frame} {used : Nat}
    (serves : Frame.Serves function frame used) (machine : Machine D) :
    ∃ after, machine.run object arithmetic (Emission.opening frame) = some after ∧
      after.base = machine.top - 8 ∧ after.top = machine.top - 8 - frame.size ∧
      after.memory (machine.top - 8) = some (.address machine.base) ∧
      (∀ address, machine.top ≤ address → after.memory address = machine.memory address) ∧
      ∀ arrival ∈ frame.arrivals, after.memory (machine.top - 8 + arrival.offset) =
        some (.double (machine.doubles arrival.register)) := by
  -- First the frame is linked to that of the caller.
  have linking := run_linking object arithmetic machine
  -- The base of the caller lies below the top, so all from the top on is as it was.
  have above : ∀ address, machine.top ≤ address →
      machine.memory.write (machine.top - 8) (.address machine.base) address =
        machine.memory address :=
    fun address high => Memory.write_of_apart _ _ (.inr (by omega))
  by_cases bare : frame.size = 0
  · refine ⟨_, by rw [Emission.opening, if_pos bare, List.append_nil]; exact linking, rfl,
      by simp [bare], by simp, above, ?_⟩
    simp [serves.arrivals_eq_nil bare]
  · -- The frame is reserved before any parameter is brought to it.
    have reserve : ∀ linked : Machine D, linked.execute object arithmetic
        ⟨.sub, [.immediate frame.size, Emission.rsp]⟩ =
          some { linked with place := linked.place.skip 1, top := linked.top - frame.size } := by
      intro linked
      simp [execute, Emission.rsp, address?, setAddress?, next]
    obtain ⟨after, ran, base, top, high, slots⟩ := @run_arrivals D object arithmetic frame.arrivals
      { machine with
        place := machine.place.skip 3
        base := machine.top - 8
        top := machine.top - 8 - frame.size
        memory := machine.memory.write (machine.top - 8) (.address machine.base) }
      (fun arrival member => (serves.arrivals arrival member).1)
    refine ⟨after, ?_, base, top, ?_, ?_, ?_⟩
    · rw [Emission.opening, if_neg bare, run, List.foldlM_append]
      rw [run] at linking ran
      rw [linking, Option.bind_eq_bind, Option.bind_some, List.foldlM_cons, reserve]
      exact ran
    · rw [high _ (Int.le_refl _)]
      simp
    · intro address onward
      rw [high address (by simp only; omega)]
      exact above address onward
    · intro arrival member
      rw [(serves.arrivals arrival member).1]
      exact slots arrival.register (.inl (List.mem_map_of_mem member))

end Machine

section Call

variable {object : Object} {context : Context D} {function : Function α} {frame : Frame}
  {used : Nat} {scope : Scope} {args : List D} {machine opened : Machine D}

/-- A value of the first store is the argument of a parameter. -/
private theorem exists_of_get?_zip {params : List (Parameter α)} {name : String} {value : D}
    (found : (Table.mk ((params.map (·.name)).zip args)).get? name = some value) :
    ∃ (index : Nat) (param : Parameter α), params[index]? = some param ∧ param.name = name ∧
      args[index]? = some value := by
  -- The entry stands at the position of its parameter and of its argument.
  obtain ⟨index, there⟩ := List.mem_iff_getElem?.mp (Table.mem_of_get? found)
  obtain ⟨named, given⟩ := List.getElem?_zip_eq_some.mp there
  rw [List.getElem?_map, Option.map_eq_some_iff] at named
  obtain ⟨param, listed, same⟩ := named
  exact ⟨index, param, listed, same, given⟩

/-- A frame that has been opened on arguments represents them under the names of parameters. -/
private theorem represents_of_entered (serves : Frame.Serves function frame used)
    (fits : args.length = function.arity) (entered : Entered function.name args machine)
    (base : opened.base = machine.top - 8) (top : opened.top = machine.top - 8 - frame.size)
    (above : ∀ address, machine.top ≤ address → opened.memory address = machine.memory address)
    (slots : ∀ arrival ∈ frame.arrivals, opened.memory (machine.top - 8 + arrival.offset) =
      some (.double (machine.doubles arrival.register))) :
    Represents frame ⟨(function.params.map (·.name)).zip args⟩ opened := by
  -- Parameters come from two places, by their position.
  refine ⟨by omega, ?_⟩
  intro name read value found
  obtain ⟨index, param, listed, rfl, given⟩ := exists_of_get?_zip found
  have slot := serves.parameters listed read
  refine ⟨_, slot, serves.low slot, ?_⟩
  rw [base, Frame.parameterOffset]
  by_cases early : index < 8
  · -- An argument from a register has been brought to its slot.
    have arrives : ⟨param.name, ⟨index, early⟩, Frame.slotOffset index⟩ ∈ frame.arrivals :=
      serves.arrives listed read
    rw [if_pos early, slots _ arrives, entered.registers ⟨index, early⟩ value given]
  · -- An argument on the stack is where the caller has left it.
    have small := (List.getElem?_eq_some_iff.mp given).1
    have cell := entered.stack index value (by omega) given
    rw [← above _ (by omega)] at cell
    rw [if_neg early, ← cell, Frame.stackOffset, Frame.spillSize]
    have count : function.params.length = args.length := fits.symm
    rw [count]
    congr 1
    omega

/-- From the base on, only the arguments on the stack are slots. -/
private theorem apart_of_arguments (serves : Frame.Serves function frame used) {name : String}
    {offset base address : Int} (slot : frame.slots.get? name = some offset) (high : base ≤ address)
    (apart : ∀ index : Nat, 8 ≤ index → index < function.arity →
      Apart address (base + 16 + 16 * (function.arity - 1 - index))) :
    Apart address (base + offset) := by
  -- A slot that is no argument ends at the base or below it.
  rcases serves.inside slot with ⟨-, below⟩ | ⟨index, late, small, rfl⟩
  · simp only [Frame.slotSize] at below
    exact .inr (by omega)
  · have clear := apart index late small
    rwa [Int.add_assoc] at clear

/-- The code that opens a frame is plain. -/
private theorem isPlain_of_mem_opening {instruction : Instruction}
    (member : instruction ∈ Emission.opening frame) : instruction.isPlain = true := by
  -- There are only pushes, moves and a subtraction.
  unfold Emission.opening at member
  split at member
  · rcases List.mem_append.mp member with linking | none
    · simp only [List.mem_cons, List.not_mem_nil, or_false] at linking
      rcases linking with rfl | rfl
      · rfl
      · rfl
    · cases none
  · rcases List.mem_append.mp member with linking | keeping
    · simp only [List.mem_cons, List.not_mem_nil, or_false] at linking
      rcases linking with rfl | rfl
      · rfl
      · rfl
    · rcases List.mem_cons.mp keeping with rfl | arriving
      · rfl
      · obtain ⟨arrival, -, rfl⟩ := List.mem_map.mp arriving
        rfl

/-- A function leaves what it returns. -/
theorem function_leaves (serves : Frame.Serves function frame used)
    (linked : Linked object context) (own : ∀ name ∈ frame.reads, context.constant? name = none)
    (covers : Covers frame scope function.live)
    (listed : ∀ param ∈ function.params, param.name ∈ scope.names)
    (pooled : Pooled object function.name 0 (function.live.flatMap (·.value.literals)))
    (code : object.HasCode ⟨function.name, 0⟩ (Emission.opening frame ++
      (Emission.statements function.name frame 0 function.live ++ Emission.closing)))
    {value : D} (found : function.result? context args = some value)
    (entered : Entered function.name args machine) :
    ∃ after, Leaves object context.toArithmetic function.name args.length value machine after := by
  -- A result exists for the right number of arguments only.
  unfold Function.result? at found
  split at found
  · rename_i fits
    rw [← entered.place, Object.hasCode_append, Object.hasCode_append] at code
    obtain ⟨opening, running, closing⟩ := code
    obtain ⟨opened, ran, base, top, linkedBase, above, slots⟩ :=
      Machine.run_opening object context.toArithmetic serves machine
    obtain ⟨toOpened, openedPlace⟩ :=
      Machine.reaches_of_run (fun _ => isPlain_of_mem_opening) opening ran
    have represents := represents_of_entered serves fits entered base top above slots
    -- The store starts with parameters, and these are names of the scope.
    have stored : ∀ name, ((Table.mk ((function.params.map (·.name)).zip args)).get? name).isSome =
        true → name ∈ scope.names := by
      intro name known
      obtain ⟨value, known⟩ := Option.isSome_iff_exists.mp known
      obtain ⟨index, param, there, rfl, -⟩ := exists_of_get?_zip known
      exact listed param (List.mem_of_getElem? there)
    obtain ⟨finished, completes⟩ := body_completes serves linked own covers stored pooled represents
      (by rw [openedPlace]; exact running) found
    -- The base of the caller is still where the frame was opened.
    have callerBase : finished.memory finished.base = some (.address machine.base) := by
      rw [completes.base, completes.memory opened.base (by omega), base, linkedBase]
      intro name offset slot
      exact apart_of_arguments serves slot (Int.le_refl _) fun index _ small => .inl (by omega)
    have ended : finished.place = opened.place.skip
      (Emission.statements function.name frame 0 function.live).length := completes.place
    rw [← openedPlace, ← ended] at closing
    -- Closing the frame brings back base and top as they were on entry.
    have leaves : finished.step object context.toArithmetic = some { finished with
        place := finished.place.skip 1
        base := machine.base
        top := finished.base + 8 } := by
      simp [Machine.step, closing.head, Machine.execute, callerBase, Machine.next]
    refine ⟨_, (toOpened.trans completes.reaches).tail leaves, ?_, closing.tail.head, rfl, ?_,
      completes.value, ?_⟩
    · simp [ended, openedPlace, Place.skip, entered.place]
    · simp only [completes.base, base]
      omega
    · intro address high clear
      rw [← above address high]
      refine completes.memory address (by omega) fun name offset slot => ?_
      refine apart_of_arguments serves slot (by omega) fun index late small => ?_
      have apart := clear index late (by omega)
      rw [fits] at apart
      rwa [base, show machine.top - 8 + 16 = machine.top + 8 by omega]
  · cases found

end Call

end DoubleLang
