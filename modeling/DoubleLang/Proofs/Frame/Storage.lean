import DoubleLang.Proofs.Frame.Slots
import DoubleLang.Proofs.Program.Parsed
import Mathlib.Order.Bounds.Basic

/-!
Where a frame keeps each name of a function.

Slots are given in three turns: to the parameters on the stack, to those in registers, and to the
names besides parameters that are read and assigned, each of these where it first comes up. The
first results need no condition on the parameters; the last one, on distinct parameters, tells the
place of every name.
-/

namespace DoubleLang

namespace Table

variable {α β : Type}

/-- Setting a name adds that name and no other. -/
private theorem mem_names_set {table : Table α} {name other : String} {value : α} :
    other ∈ (table.set name value).names ↔ other ∈ table.names ∨ other = name := by
  -- A known name keeps its place, and any other comes in at the end.
  by_cases known : name ∈ table.names
  · rw [names_set_of_mem table value known]
    refine ⟨.inl, ?_⟩
    rintro (there | rfl)
    · exact there
    · exact known
  · rw [names_set_of_not_mem table value known, List.mem_append, List.mem_singleton]

/-- Behind a set, every entry is an old one or the one that was set. -/
private theorem mem_entries_set {table : Table α} {name : String} {value : α} {entry : String × α}
    (listed : entry ∈ (table.set name value).entries) :
    entry ∈ table.entries ∨ entry = (name, value) := by
  -- Setting goes through the entries until it finds the name or the end.
  obtain ⟨entries⟩ := table
  simp only [set] at listed ⊢
  induction entries with
  | nil => exact .inr (List.mem_singleton.mp listed)
  | cons first rest ih =>
    obtain ⟨known, old⟩ := first
    by_cases same : known = name
    · -- The old entry of the name gives way to the new one.
      rw [setIn, if_pos same, same] at listed
      rcases List.mem_cons.mp listed with here | later
      · exact .inr here
      · exact .inl (List.mem_cons_of_mem _ later)
    · rw [setIn, if_neg same] at listed
      rcases List.mem_cons.mp listed with here | later
      · exact .inl (here ▸ List.mem_cons_self)
      · exact (ih later).imp_left (List.mem_cons_of_mem _)

/-- Setting names in turn adds those names and no other. -/
private theorem mem_names_foldl_set (name : β → String) (value : β → α) (items : List β)
    (table : Table α)
    {other : String} :
    other ∈ (items.foldl (fun table item => table.set (name item) (value item)) table).names ↔
      other ∈ table.names ∨ other ∈ items.map name := by
  -- The first item adds its name before the others add theirs.
  induction items generalizing table with
  | nil => simp
  | cons item rest ih =>
    rw [List.foldl_cons, ih, mem_names_set, List.map_cons, List.mem_cons, or_assoc]

/-- Behind sets in turn, every entry is an old one or one of those that were set. -/
private theorem mem_entries_foldl_set (name : β → String) (value : β → α) {items : List β}
    {table : Table α} {entry : String × α}
    (listed : entry ∈
      (items.foldl (fun table item => table.set (name item) (value item)) table).entries) :
    entry ∈ table.entries ∨ ∃ item ∈ items, entry = (name item, value item) := by
  -- Each set leaves the entries it finds, but for the one it puts in.
  refine List.foldlRecOn (motive := fun next : Table α => entry ∈ next.entries →
    entry ∈ table.entries ∨ ∃ item ∈ items, entry = (name item, value item)) items _ .inl ?_ listed
  intro next known item member here
  rcases mem_entries_set here with old | new
  · exact known old
  · exact .inr ⟨item, member, new⟩

end Table

namespace Frame

variable {α : Type}

/-- The targets that take slots beside those of a table: each that is read and has none, in the
order in which they first come up. -/
def newTargets (reads : List String) (slots : Table Int) (live : List (Statement α)) :
    List String :=
  ((Statement.targets live).filter fun target =>
    reads.contains target && !slots.contains target).eraseDups

/-- Names with the slots from a number on, one after the other. -/
def numbered (number : Nat) (names : List String) : List (String × Int) :=
  (names.zipIdx number).map fun (name, number) => (name, slotOffset number)

/-- A target that has its slot now is not new any more, and neither are its later mentions. -/
private theorem newTargets_assign {reads : List String} {slots : Table Int} {note : α}
    {target : String}
    {value : Expr α} {rest : List (Statement α)} (offset : Int)
    (read : target ∈ reads) (fresh : target ∉ slots.names) :
    newTargets reads slots (.assign note target value :: rest) =
      target :: newTargets reads (slots.set target offset) rest := by
  -- The target passes the test itself, and then only other names are left.
  have targets : Statement.targets (.assign note target value :: rest) =
      target :: Statement.targets rest := rfl
  have taken : (reads.contains target && !slots.contains target) = true := by
    simp [read, fresh, Table.contains]
  rw [newTargets, targets, List.filter_cons_of_pos (by exact taken), List.eraseDups_cons,
    List.filter_filter, newTargets]
  congr 2
  refine List.filter_congr fun other _ => ?_
  -- The names with a slot are those of before, and the target.
  have known : (slots.set target offset).contains other =
      (slots.contains other || other == target) := by
    rw [Bool.eq_iff_iff, Bool.or_eq_true, Table.contains_iff, Table.contains_iff, beq_iff_eq]
    exact Table.mem_names_set
  rw [known, Bool.not_or, Bool.and_comm, Bool.and_assoc]

/-- Targets take the next slots behind those there are, in the order in which they first come up. -/
private theorem foldl_placeTarget_eq (reads : List String) (live : List (Statement α))
    (slots : Table Int)
    (used : Nat) :
    live.foldl (placeTarget reads) (slots, used) =
      (⟨slots.entries ++ numbered used (newTargets reads slots live)⟩,
        used + (newTargets reads slots live).length) := by
  -- Behind each statement, the slots so far decide which of the later targets are new.
  induction live generalizing slots used with
  | nil => simp [newTargets, numbered, Statement.targets]
  | cons statement rest ih =>
    rw [List.foldl_cons]
    cases statement with
    | returns _ _ => exact ih slots used
    | assign note target value =>
      simp only [placeTarget]
      split
      · rename_i passed
        -- A target that has a slot or is not read takes none.
        have skipped : newTargets reads slots (.assign note target value :: rest) =
            newTargets reads slots rest := by
          refine congrArg List.eraseDups (List.filter_cons_of_neg ?_)
          rw [Bool.and_comm, ← Bool.not_eq_false', Bool.not_and, Bool.not_not, passed]
          simp
        rw [ih, skipped]
      · rename_i placed
        rw [Bool.or_eq_true, Bool.not_eq_true', not_or, Bool.not_eq_false, List.contains_iff_mem,
          Table.contains_iff] at placed
        obtain ⟨fresh, read⟩ := placed
        rw [ih, newTargets_assign (slotOffset used) read fresh,
          Table.entries_set_of_not_mem slots (slotOffset used) fresh]
        simp only [numbered, List.zipIdx_cons, List.map_cons, List.append_assoc,
          List.singleton_append, List.length_cons, Prod.mk.injEq, true_and]
        omega

/-- There are as many arrivals as parameters and registers allow. -/
private theorem length_arrivalsOf (params : List (Parameter α)) :
    (arrivalsOf params).length = min params.length 8 := by
  simp [arrivalsOf]

/-- The names of the parameters from the ninth on have slots on the stack. -/
private theorem mem_names_stackSlots {params : List (Parameter α)} {name : String} :
    name ∈ (stackSlots params).names ↔ name ∈ (params.map (·.name)).drop 8 := by
  -- There is nothing in the table before these parameters are set.
  rw [← names_drop_zipIdx]
  refine (Table.mem_names_foldl_set (fun item => item.1.name)
    (fun item => stackOffset item.2 params.length) (params.zipIdx.drop 8) .empty).trans ?_
  exact or_iff_right (by simp [Table.names, Table.empty])

/-- The names of all parameters have slots, and no other names. -/
private theorem mem_names_parameterSlots {params : List (Parameter α)} {name : String} :
    name ∈ (parameterSlots params).names ↔ name ∈ params.map (·.name) := by
  -- The slots of registers are set on top of those of the stack.
  refine (Table.mem_names_foldl_set (·.name) (·.offset) (arrivalsOf params) _).trans ?_
  -- The parameters from the ninth on and those in front of them are all.
  rw [mem_names_stackSlots, names_arrivalsOf, or_comm, ← List.mem_append, List.take_append_drop]

/-- The slots of parameters from the stack are those of their positions. -/
private theorem mem_entries_stackSlots {params : List (Parameter α)} {name : String} {offset : Int}
    (listed : (name, offset) ∈ (stackSlots params).entries) :
    ∃ index : Nat, 8 ≤ index ∧ index < params.length ∧
      offset = stackOffset index params.length := by
  -- The table starts empty, so each of its entries was set for some position.
  rcases Table.mem_entries_foldl_set (fun item : Parameter α × Nat => item.1.name)
    (fun item => stackOffset item.2 params.length) listed with old | ⟨item, member, same⟩
  · simp [Table.empty] at old
  · obtain ⟨late, there⟩ := mem_drop_zipIdx.mp member
    exact ⟨item.2, late, (List.getElem?_eq_some_iff.mp there).1, congrArg Prod.snd same⟩

/-- The offset of a slot, by its number. -/
private theorem slotOffset_eq (number : Nat) : slotOffset number = -8 * ((number : Int) + 1) := by
  simp only [slotOffset, slotSize]
  omega

/-- Every slot lies below the base. -/
theorem slotOffset_neg (number : Nat) : slotOffset number < 0 := by
  rw [slotOffset_eq]
  omega

/-- A slot in a row has one of the numbers of the row. -/
private theorem mem_numbered {number : Nat} {names : List String} {name : String} {offset : Int}
    (listed : (name, offset) ∈ numbered number names) :
    ∃ place < number + names.length, offset = slotOffset place := by
  -- Numbers are given one after another from the first on.
  obtain ⟨⟨known, place⟩, member, same⟩ := List.mem_map.mp listed
  cases same
  exact ⟨place, (List.mem_zipIdx member).2.1, rfl⟩

/-- A parameter from a register is kept below the base within a frame that has slots for all of
them, whatever else it has. -/
private theorem bounds_of_arrival {params : List (Parameter α)} {arrival : Arrival}
    (member : arrival ∈ arrivalsOf params) (more : Nat) :
    -(aligned (slotSize * (min params.length 8 + more)) : Int) ≤ arrival.offset ∧
      arrival.offset + slotSize ≤ 0 := by
  -- Eight parameters at most come in registers, and each has a slot.
  obtain ⟨param, there, -, place⟩ := mem_arrivalsOf.mp member
  -- The number of the slot is that of the register and of the parameter.
  have small := (List.getElem?_eq_some_iff.mp there).1
  rw [place]
  exact slotOffset_bounds (by omega)

end Frame

/-- The names besides parameters that live statements assign and that are read, in the order in
which they are first assigned. -/
def Function.keptTargets {α : Type} (function : Function α) (reads : List String) : List String :=
  ((Statement.targets function.live).filter fun target =>
    target ∈ reads ∧ target ∉ function.params.map (·.name)).eraseDups

namespace Frame

variable {α : Type} (env : Environment) (function : Function α)

/-- The frame of a function that reads nothing. -/
private theorem ofFunction_of_bare (bare : (ofFunction env function).reads = []) :
    ofFunction env function = ⟨0, stackSlots function.params, [], []⟩ := by
  rw [reads_ofFunction] at bare
  rw [ofFunction, if_pos (by simp [bare]), bare]

/-- The frame of a function that reads something. -/
private theorem ofFunction_of_reading (reading : (ofFunction env function).reads ≠ []) :
    ofFunction env function =
      let kept := function.keptTargets (ofFunction env function).reads
      ⟨aligned (slotSize * (min function.arity 8 + kept.length)),
        ⟨(parameterSlots function.params).entries ++ numbered (min function.arity 8) kept⟩,
        arrivalsOf function.params, (ofFunction env function).reads⟩ := by
  -- Something is read, so the frame is not the bare one.
  rw [reads_ofFunction] at reading ⊢
  rw [ofFunction, if_neg (by simpa using reading)]
  -- The targets without a slot of a parameter take the slots behind those.
  have placed := foldl_placeTarget_eq (readsOf (env.scope function.name) function.live)
    function.live (parameterSlots function.params) (arrivalsOf function.params).length
  have kept : newTargets (readsOf (env.scope function.name) function.live)
      (parameterSlots function.params) function.live =
        function.keptTargets (readsOf (env.scope function.name) function.live) := by
    refine congrArg List.eraseDups (List.filter_congr fun target _ => ?_)
    rw [Bool.eq_iff_iff]
    simp [Table.contains, mem_names_parameterSlots]
  rw [kept, length_arrivalsOf, parameterSlots] at placed
  simp only [length_arrivalsOf, Function.arity, parameterSlots]
  rw [placed]

/-- The names that have storage. -/
theorem mem_names_slots {name : String} :
    name ∈ (ofFunction env function).slots.names ↔
      name ∈ (function.params.map (·.name)).drop 8 ∨
        ((ofFunction env function).reads ≠ [] ∧
          (name ∈ (function.params.map (·.name)).take 8 ∨
            (name ∉ function.params.map (·.name) ∧ name ∈ (ofFunction env function).reads ∧
              name ∈ Statement.targets function.live))) := by
  -- Without reads only what the caller has put on the stack has a place.
  by_cases bare : (ofFunction env function).reads = []
  · rw [ofFunction_of_bare env function bare]
    simp [mem_names_stackSlots]
  · -- The names are those of the parameters, and then those of the targets.
    have names : (ofFunction env function).slots.names = (parameterSlots function.params).names ++
        function.keptTargets (ofFunction env function).reads := by
      rw [ofFunction_of_reading env function bare]
      simp [Table.names, numbered, Function.comp_def]
    have listed := List.take_append_drop 8 (function.params.map (·.name))
    rw [names, List.mem_append, mem_names_parameterSlots, Function.keptTargets,
      List.mem_eraseDups, List.mem_filter, decide_eq_true_eq]
    nth_rewrite 1 [← listed]
    rw [List.mem_append]
    tauto

/-- A slot lies below the base within the frame, or it is that of an argument on the stack. -/
theorem inside_of_slot {name : String} {offset : Int}
    (found : (ofFunction env function).slots.get? name = some offset) :
    (-((ofFunction env function).size : Int) ≤ offset ∧ offset + slotSize ≤ 0) ∨
      ∃ index : Nat, 8 ≤ index ∧ index < function.arity ∧
        offset = stackOffset index function.arity := by
  -- A slot that is found is one of the entries.
  have listed := Table.mem_of_get? found
  by_cases bare : (ofFunction env function).reads = []
  · rw [ofFunction_of_bare env function bare] at listed
    exact .inr (mem_entries_stackSlots listed)
  · rw [ofFunction_of_reading env function bare] at listed ⊢
    -- A slot is that of a parameter on the stack or in a register, or that of a target.
    rcases List.mem_append.mp listed with parameter | target
    · rcases Table.mem_entries_foldl_set Arrival.name Arrival.offset parameter with
        stack | ⟨arrival, member, same⟩
      · exact .inr (mem_entries_stackSlots stack)
      · rw [(Prod.mk.inj same).2]
        exact .inl (bounds_of_arrival member _)
    · obtain ⟨place, small, rfl⟩ := mem_numbered target
      exact .inl (slotOffset_bounds small)

/-- A parameter that arrives in a register is kept below the base within the frame. -/
theorem inside_of_arrival {arrival : Arrival}
    (member : arrival ∈ (ofFunction env function).arrivals) :
    -((ofFunction env function).size : Int) ≤ arrival.offset ∧ arrival.offset + slotSize ≤ 0 := by
  -- Parameters are kept only if anything is read.
  by_cases bare : (ofFunction env function).reads = []
  · rw [ofFunction_of_bare env function bare] at member
    cases member
  · rw [ofFunction_of_reading env function bare] at member ⊢
    exact bounds_of_arrival member _

/-- The size of a frame is the least number of whole pairs of slots that holds some bytes. -/
private theorem isLeast_aligned (bytes : Nat) :
    IsLeast {size : Nat | 16 ∣ size ∧ bytes ≤ size} (aligned bytes) := by
  -- The bytes are rounded up, so one pair less would not hold them.
  constructor
  · refine ⟨Nat.dvd_mul_left _ _, ?_⟩
    simp only [aligned]
    omega
  · rintro size ⟨⟨pairs, rfl⟩, enough⟩
    simp only [aligned]
    omega

/-- The size of a frame is made of whole pairs of slots. -/
theorem dvd_size : 16 ∣ (ofFunction env function).size := by
  -- A frame has no slots, or a size that is rounded up.
  by_cases bare : (ofFunction env function).reads = []
  · rw [ofFunction_of_bare env function bare]
    exact Nat.dvd_zero 16
  · rw [ofFunction_of_reading env function bare]
    exact (isLeast_aligned _).1.1

variable {env function}

/-- Every name has its storage once. -/
private theorem nodup_names_slots (distinct : (function.params.map (·.name)).Nodup) :
    (ofFunction env function).slots.names.Nodup := by
  -- The bare frame has slots for distinct parameters only.
  rw [ofFunction]
  split
  · rw [names_stackSlots distinct]
    exact distinct.sublist (List.drop_sublist 8 _)
  · -- Targets take slots only if they have none.
    exact (foldl_placeTarget_places function.params _ _
      (parameterSlots function.params, _)).distinct
      (nodup_names_parameterSlots distinct)

/-- A parameter on the stack has the place of its position, whether it is read or not. -/
private theorem get?_slots_of_stack (distinct : (function.params.map (·.name)).Nodup) {index : Nat}
    {param : Parameter α} (late : 8 ≤ index) (there : function.params[index]? = some param) :
    (ofFunction env function).slots.get? param.name = some (stackOffset index function.arity) := by
  -- A name is listed once, so it is enough to find the entry anywhere.
  have listed : (param.name, stackOffset index function.arity) ∈
      (function.params.zipIdx.drop 8).map fun item =>
        (item.1.name, stackOffset item.2 function.params.length) :=
    List.mem_map.mpr ⟨(param, index), mem_drop_zipIdx.mpr ⟨late, there⟩, rfl⟩
  apply Table.get?_of_mem (nodup_names_slots distinct)
  by_cases bare : (ofFunction env function).reads = []
  · rw [ofFunction_of_bare env function bare, entries_stackSlots distinct]
    exact listed
  · rw [ofFunction_of_reading env function bare, entries_parameterSlots distinct]
    exact List.mem_append_left _ (List.mem_append_left _ listed)

/-- A parameter from a register has the slot of its number, if anything is read. -/
private theorem get?_slots_of_register (distinct : (function.params.map (·.name)).Nodup)
    (reading : (ofFunction env function).reads ≠ []) {index : Nat} {param : Parameter α}
    (early : index < 8) (there : function.params[index]? = some param) :
    (ofFunction env function).slots.get? param.name = some (slotOffset index) := by
  -- A name is listed once, so it is enough to find the entry among the arrivals.
  have arrives : Arrival.mk param.name ⟨index, early⟩ (slotOffset index) ∈
      arrivalsOf function.params := mem_arrivalsOf.mpr ⟨param, there, rfl, rfl⟩
  apply Table.get?_of_mem (nodup_names_slots distinct)
  rw [ofFunction_of_reading env function reading, entries_parameterSlots distinct]
  exact List.mem_append_left _ (List.mem_append_right _ (List.mem_map.mpr ⟨_, arrives, rfl⟩))

/-- A target that is kept has the slot of its turn, behind those of the parameters. -/
private theorem get?_slots_of_target (distinct : (function.params.map (·.name)).Nodup)
    {position : Nat}
    {name : String}
    (there : (function.keptTargets (ofFunction env function).reads)[position]? = some name) :
    (ofFunction env function).slots.get? name =
      some (slotOffset (min function.arity 8 + position)) := by
  -- A name is listed once, so it is enough to find its place in the row of targets.
  have reading : (ofFunction env function).reads ≠ [] := by
    intro bare
    -- No target is read where nothing is.
    simp [bare, Function.keptTargets] at there
  have listed : (name, min function.arity 8 + position) ∈
      (function.keptTargets (ofFunction env function).reads).zipIdx (min function.arity 8) := by
    rw [List.mk_mem_zipIdx_iff_le_and_getElem?_sub, Nat.add_sub_cancel_left]
    exact ⟨Nat.le_add_right _ _, there⟩
  apply Table.get?_of_mem (nodup_names_slots distinct)
  rw [ofFunction_of_reading env function reading]
  exact List.mem_append_right _ (List.mem_map.mpr ⟨_, listed, rfl⟩)

/-- The arrivals are the first eight parameters, each with the register and slot of its number. -/
private theorem arrivalsOf_eq (params : List (Parameter α)) :
    (arrivalsOf params).map (fun arrival => (arrival.name, arrival.register.val, arrival.offset)) =
      (params.take 8).zipIdx.map fun (param, index) =>
        (param.name, index, -8 * ((index : Int) + 1)) := by
  -- Both lists end with the parameters or the registers, whichever are fewer.
  apply List.ext_getElem
  · simp [arrivalsOf, Nat.min_comm]
  · intro index here there
    simp [arrivalsOf, slotOffset_eq]

/-- Exactly the slots in use lie below the base. -/
private theorem countP_negative (env : Environment)
    (distinct : (function.params.map (·.name)).Nodup) :
    ∃ used, (ofFunction env function).size = aligned (slotSize * used) ∧
      (ofFunction env function).slots.entries.countP (·.2 < 0) = used := by
  -- Parameters on the stack lie above the base.
  have above : ((function.params.zipIdx.drop 8).map fun item =>
      (item.1.name, stackOffset item.2 function.params.length)).countP (·.2 < 0) = 0 := by
    rw [List.countP_eq_zero]
    intro entry listed
    obtain ⟨⟨param, index⟩, member, rfl⟩ := List.mem_map.mp listed
    have small := (List.getElem?_eq_some_iff.mp (mem_drop_zipIdx.mp member).2).1
    rw [decide_eq_true_eq]
    simp only [stackOffset, spillSize]
    omega
  by_cases bare : (ofFunction env function).reads = []
  · rw [ofFunction_of_bare env function bare]
    exact ⟨0, rfl, (congrArg _ (entries_stackSlots distinct)).trans above⟩
  · -- Those from registers and the targets lie below it, and these are the slots in use.
    rw [ofFunction_of_reading env function bare]
    refine ⟨_, rfl, ?_⟩
    rw [entries_parameterSlots distinct, List.countP_append, List.countP_append, above,
      List.countP_eq_length.mpr, List.countP_eq_length.mpr]
    · simp [length_arrivalsOf, numbered, Function.arity]
    · rintro ⟨name, offset⟩ listed
      obtain ⟨place, -, rfl⟩ := mem_numbered listed
      exact decide_eq_true (slotOffset_neg place)
    · intro entry listed
      obtain ⟨arrival, member, rfl⟩ := List.mem_map.mp listed
      obtain ⟨param, -, -, place⟩ := mem_arrivalsOf.mp member
      exact decide_eq_true (place ▸ slotOffset_neg _)

/-- What a frame gives to the names of a function. -/
structure Allots (function : Function α) (frame : Frame) : Prop where
  /-- Parameters on the stack have storage; if anything is read, so have those from registers, and
  the other names that are read and that a live statement assigns. -/
  domain : ∀ name, name ∈ frame.slots.names ↔
    name ∈ (function.params.map (·.name)).drop 8 ∨
      (frame.reads ≠ [] ∧
        (name ∈ (function.params.map (·.name)).take 8 ∨
          (name ∉ function.params.map (·.name) ∧ name ∈ frame.reads ∧
            name ∈ Statement.targets function.live)))
  /-- No name has storage twice. -/
  once : frame.slots.names.Nodup
  /-- The eight bytes of a name have none in common with those of another. -/
  apart : ∀ {name other : String} {offset place : Int}, name ≠ other →
    frame.slots.get? name = some offset → frame.slots.get? other = some place →
      offset + 8 ≤ place ∨ place + 8 ≤ offset
  /-- Parameters on the stack lie above the base, the last one lowest. -/
  stack : ∀ {index : Nat} {param : Parameter α}, 8 ≤ index →
    function.params[index]? = some param →
      frame.slots.get? param.name = some (0x10 + 0x10 * ((function.arity : Int) - 1 - index))
  /-- Parameters from registers lie below the base, in order. -/
  registers : frame.reads ≠ [] → ∀ {index : Nat} {param : Parameter α}, index < 8 →
    function.params[index]? = some param →
      frame.slots.get? param.name = some (-8 * ((index : Int) + 1))
  /-- Parameters from registers are listed with their registers and places, if anything is read. -/
  arrivals :
    frame.arrivals.map (fun arrival => (arrival.name, arrival.register.val, arrival.offset)) =
      if frame.reads = [] then []
      else (function.params.take 8).zipIdx.map fun (param, index) =>
        (param.name, index, -8 * ((index : Int) + 1))
  /-- The other names come next, in the order in which they are first assigned. -/
  targets : ∀ {position : Nat} {name : String},
    (function.keptTargets frame.reads)[position]? = some name →
      frame.slots.get? name = some (-8 * ((min function.arity 8 : Int) + position + 1))
  /-- The size is the least multiple of sixteen that holds the slots below the base. -/
  size : IsLeast {bytes : Nat | 16 ∣ bytes ∧ 8 * frame.slots.entries.countP (·.2 < 0) ≤ bytes}
    frame.size
  /-- There are no bytes below the base exactly when no name is kept there. -/
  bare : frame.size = 0 ↔
    ∀ name offset, frame.slots.get? name = some offset → 0 ≤ offset

/-- The frame of a function with distinct parameters gives every name a storage of its own: the
parameters by their positions, then the other names that are read, in the order in which they are
first assigned. -/
theorem every_name_has_its_own_storage (env : Environment) {function : Function α}
    (distinct : (function.params.map (·.name)).Nodup) :
    Allots function (ofFunction env function) := by
  -- The size is counted from the entries below the base.
  obtain ⟨used, size, negative⟩ := countP_negative env distinct
  refine ⟨fun _ => mem_names_slots env function, nodup_names_slots distinct, ?_, ?_, ?_, ?_, ?_,
    ?_, ?_⟩
  · intro name other offset place differ found otherFound
    obtain ⟨_, serves⟩ := ofFunction_serves env distinct
    exact serves.apart found otherFound differ
  · intro index param late there
    exact get?_slots_of_stack distinct late there
  · intro reading index param early there
    rw [get?_slots_of_register distinct reading early there, slotOffset_eq]
  · -- Registers are stored only if something is read at all.
    by_cases bare : (ofFunction env function).reads = []
    · rw [ofFunction_of_bare env function bare]
      rfl
    · rw [if_neg bare, ofFunction_of_reading env function bare]
      exact arrivalsOf_eq function.params
  · intro position name there
    rw [get?_slots_of_target distinct there, slotOffset_eq, Option.some.injEq]
    omega
  · rw [size, negative]
    exact isLeast_aligned (8 * used)
  · -- A size of nothing leaves no slot in use, and then no entry lies below the base.
    have none : (ofFunction env function).size = 0 ↔ used = 0 := by
      simp only [size, aligned, slotSize]
      omega
    rw [none, ← negative, List.countP_eq_zero]
    constructor
    · intro above name offset found
      simpa using above (name, offset) (Table.mem_of_get? found)
    · intro above entry listed
      simpa using above entry.1 entry.2 (Table.get?_of_mem (nodup_names_slots distinct) listed)

/-- Of ten parameters two are on the stack; of three other names two are read, and the one that is
first assigned comes first. -/
theorem storage_of_ten : ∃ program env function,
    Program.parse "ten.dbl" ("fun f(a, b, c, d, e, g, h, i, j, k) " ++
      "\x7b y = 1; x = y; k = x; unused = 4; y = x + k; return y + a; \x7d") = .ok program ∧
      program.check = .ok env ∧ program.functions = [function] ∧
      Allots function (ofFunction env function) ∧
      (ofFunction env function).slots.entries =
        [("j", 0x20), ("k", 0x10), ("a", -0x8), ("b", -0x10), ("c", -0x18), ("d", -0x20),
          ("e", -0x28), ("g", -0x30), ("h", -0x38), ("i", -0x40), ("y", -0x48), ("x", -0x50)] ∧
      (ofFunction env function).size = 0x50 := by
  -- One run of the compiler gives the entries and the size of the frame.
  obtain ⟨program, env, parsed, accepted, given⟩ := Program.exists_of_verdict? "ten.dbl"
    ("fun f(a, b, c, d, e, g, h, i, j, k) " ++
      "\x7b y = 1; x = y; k = x; unused = 4; y = x + k; return y + a; \x7d")
    (fun program => decide (program.check.toOption.map (fun env =>
      program.functions.map fun function =>
        ((ofFunction env function).slots.entries, (ofFunction env function).size)) =
      some [([("j", 0x20), ("k", 0x10), ("a", -0x8), ("b", -0x10), ("c", -0x18), ("d", -0x20),
        ("e", -0x28), ("g", -0x30), ("h", -0x38), ("i", -0x40), ("y", -0x48), ("x", -0x50)],
          0x50)]))
    true (by decide +kernel)
  have frames := of_decide_eq_true given
  simp only [accepted, Except.toOption, Option.map_some, Option.some.injEq] at frames
  obtain ⟨function, single, same⟩ := List.map_eq_singleton_iff.mp frames
  rw [Prod.mk.injEq] at same
  have checked := (Program.checked_of_check accepted).functions function (by simp [single])
  exact ⟨program, env, function, parsed, accepted, single,
    every_name_has_its_own_storage env checked.params_distinct, same⟩

end Frame

end DoubleLang
