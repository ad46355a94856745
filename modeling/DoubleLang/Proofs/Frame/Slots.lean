import DoubleLang.Proofs.Frame.Reads
import DoubleLang.Proofs.Program.Checked

/-! The slots of a function: each name that has code has eight bytes that are its own. -/

namespace DoubleLang

/-- Names that are all new come into a table in their order. -/
private theorem Table.entries_foldl_set {α β : Type} (name : β → String) (value : β → α)
    (items : List β)
    (table : Table α) (distinct : (table.names ++ items.map name).Nodup) :
    (items.foldl (fun table item => table.set (name item) (value item)) table).entries =
      table.entries ++ items.map fun item => (name item, value item) := by
  -- No name is there yet when its turn comes, so each comes in at the end.
  induction items generalizing table with
  | nil => simp
  | cons item rest ih =>
    have fresh : name item ∉ table.names := by
      intro listed
      exact (List.nodup_append.mp distinct).2.2 _ listed (name item) (by simp) rfl
    have names := names_set_of_not_mem table (value item) fresh
    rw [List.foldl_cons, ih (table.set (name item) (value item)) (by simpa [names] using distinct),
      entries_set_of_not_mem table _ fresh]
    simp

namespace Frame

variable {α : Type}

/-- Slots that lie apart: the numbered ones below the base, and arguments above it. -/
structure Laid (params : List (Parameter α)) (used : Nat) (slots : Table Int) : Prop where
  inside : ∀ {name offset}, slots.get? name = some offset →
    (∃ number < used, offset = slotOffset number) ∨
      ∃ (index : Nat) (param : Parameter α), 8 ≤ index ∧ params[index]? = some param ∧
        param.name = name ∧ offset = stackOffset index params.length
  apart : ∀ {name other offset}, slots.get? name = some offset →
    slots.get? other = some offset → name = other

/-- Slots of different numbers differ. -/
private theorem slotOffset_inj {number other : Nat} (same : slotOffset number = slotOffset other) :
    number = other := by
  -- Offsets are eight bytes apart for numbers that follow each other.
  simp only [slotOffset, slotSize] at same
  omega

/-- Arguments of different positions lie at different places. -/
private theorem stackOffset_inj {index other : Nat} {arity : Int}
    (same : stackOffset index arity = stackOffset other arity) : index = other := by
  -- Offsets are sixteen bytes apart for positions that follow each other.
  simp only [stackOffset, spillSize] at same
  omega

/-- A slot lies below the base and an argument above it. -/
private theorem slotOffset_ne_stackOffset {number index arity : Nat} (there : index < arity) :
    slotOffset number ≠ stackOffset index arity := by
  -- One of them is negative, and the other is at least sixteen.
  simp only [slotOffset, slotSize, stackOffset, spillSize]
  omega

/-- The parameters that arrive on the stack are those from the ninth on. -/
theorem mem_drop_zipIdx {params : List (Parameter α)} {param : Parameter α} {index : Nat} :
    (param, index) ∈ params.zipIdx.drop 8 ↔ 8 ≤ index ∧ params[index]? = some param := by
  -- Dropping eight pairs shifts positions by eight and leaves the numbers as they are.
  simp only [List.mem_iff_getElem?, List.getElem?_drop, List.getElem?_zipIdx,
    Option.map_eq_some_iff, Prod.mk.injEq]
  constructor
  · rintro ⟨position, other, found, rfl, rfl⟩
    exact ⟨by omega, by simpa using found⟩
  · -- A pair from the ninth on is found eight positions earlier.
    rintro ⟨late, found⟩
    exact ⟨index - 8, param, by rw [Nat.add_sub_cancel' late, found], rfl, by omega⟩

/-- The parameters that arrive in registers are the first eight, in order. -/
theorem mem_arrivalsOf {params : List (Parameter α)} {arrival : Arrival} :
    arrival ∈ arrivalsOf params ↔ ∃ param, params[arrival.register.val]? = some param ∧
      arrival.name = param.name ∧ arrival.offset = slotOffset arrival.register.val := by
  -- Parameters and registers are taken in pairs, as far as there are both.
  obtain ⟨name, register, offset⟩ := arrival
  simp only [arrivalsOf, List.mem_map, Prod.exists, Arrival.mk.injEq]
  constructor
  · rintro ⟨param, other, member, rfl, rfl, rfl⟩
    obtain ⟨position, found⟩ := List.mem_iff_getElem?.mp member
    obtain ⟨here, there⟩ := List.getElem?_zip_eq_some.mp found
    -- The register at a position of the list of registers has that number.
    obtain ⟨small, rfl⟩ := List.getElem?_eq_some_iff.mp there
    exact ⟨param, by simpa using here, rfl, rfl⟩
  · rintro ⟨param, found, rfl, rfl⟩
    refine ⟨param, register, List.mem_iff_getElem?.mpr ⟨register.val, ?_⟩, rfl, rfl, rfl⟩
    exact List.getElem?_zip_eq_some.mpr ⟨found, by simp⟩

/-- The names of the parameters that arrive in registers. -/
theorem names_arrivalsOf (params : List (Parameter α)) :
    (arrivalsOf params).map (·.name) = (params.map (·.name)).take 8 := by
  -- Only as many parameters are taken as there are registers.
  have first : (params.zip (List.finRange 8)).map Prod.fst = params.take 8 := by
    rw [List.zip_eq_zip_take_min, List.map_fst_zip (by simp), List.length_finRange,
      Nat.min_comm, ← List.take_eq_take_min]
  rw [← List.map_take, ← first]
  simp [arrivalsOf, Function.comp_def]

/-- The names of the parameters that arrive on the stack. -/
theorem names_drop_zipIdx (params : List (Parameter α)) :
    (params.zipIdx.drop 8).map (·.1.name) = (params.map (·.name)).drop 8 := by
  -- Numbering parameters and dropping the numbers again changes nothing.
  have first := congrArg (List.map (·.name)) (List.zipIdx_map_fst 0 params)
  rw [List.map_drop, ← first, List.map_map]
  rfl

/-- Distinct names stay distinct when those from the ninth on come first. -/
private theorem nodup_drop_append_take {names : List String} (distinct : names.Nodup) :
    (names.drop 8 ++ names.take 8).Nodup := by
  -- The two parts are a permutation of the whole.
  have swapped : (names.drop 8 ++ names.take 8).Perm names :=
    List.perm_append_comm.trans (by rw [List.take_append_drop])
  exact swapped.nodup_iff.mpr distinct

/-- The slots of the parameters that arrive on the stack, as listed. -/
theorem entries_stackSlots {params : List (Parameter α)}
    (distinct : (params.map (·.name)).Nodup) :
    (stackSlots params).entries = (params.zipIdx.drop 8).map fun item =>
      (item.1.name, stackOffset item.2 params.length) := by
  -- The names are distinct, so each parameter adds an entry of its own.
  refine Table.entries_foldl_set (fun item => item.1.name)
    (fun item => stackOffset item.2 params.length) (params.zipIdx.drop 8) .empty ?_
  rw [names_drop_zipIdx]
  exact distinct.sublist (List.drop_sublist 8 _)

/-- The names of the parameters that arrive on the stack, each with one slot. -/
theorem names_stackSlots {params : List (Parameter α)}
    (distinct : (params.map (·.name)).Nodup) :
    (stackSlots params).names = (params.map (·.name)).drop 8 := by
  rw [Table.names, entries_stackSlots distinct, List.map_map]
  exact names_drop_zipIdx params

/-- The slots of all parameters: those from the stack, then those from registers. -/
def parameterSlots (params : List (Parameter α)) : Table Int :=
  (arrivalsOf params).foldl (fun slots arrival => slots.set arrival.name arrival.offset)
    (stackSlots params)

/-- The slots of all parameters, as listed. -/
theorem entries_parameterSlots {params : List (Parameter α)}
    (distinct : (params.map (·.name)).Nodup) :
    (parameterSlots params).entries =
      ((params.zipIdx.drop 8).map fun item => (item.1.name, stackOffset item.2 params.length)) ++
        (arrivalsOf params).map fun arrival => (arrival.name, arrival.offset) := by
  -- No parameter from a register is among those from the stack.
  rw [parameterSlots, Table.entries_foldl_set, entries_stackSlots distinct]
  rw [names_stackSlots distinct, names_arrivalsOf]
  exact nodup_drop_append_take distinct

/-- Every parameter has one slot. -/
theorem nodup_names_parameterSlots {params : List (Parameter α)}
    (distinct : (params.map (·.name)).Nodup) : (parameterSlots params).names.Nodup := by
  -- The names are those of the parameters, with those from the ninth on in front.
  rw [Table.names, entries_parameterSlots distinct, List.map_append, List.map_map, List.map_map]
  have stack := names_drop_zipIdx params
  have registers := names_arrivalsOf params
  simp only [Function.comp_def, stack, registers]
  exact nodup_drop_append_take distinct

/-- A new slot lies apart from all others. -/
theorem Laid.set {params : List (Parameter α)} {used : Nat} {slots : Table Int}
    (laid : Laid params used slots) (target : String) :
    Laid params (used + 1) (slots.set target (slotOffset used)) := by
  -- No slot so far has the next number.
  have unused : ∀ {name}, slots.get? name ≠ some (slotOffset used) := by
    intro name found
    rcases laid.inside found with ⟨number, small, same⟩ | ⟨index, param, -, there, -, same⟩
    · exact absurd (slotOffset_inj same) (by omega)
    · exact slotOffset_ne_stackOffset (List.getElem?_eq_some_iff.mp there).1 same
  constructor
  · intro name offset found
    by_cases same : name = target
    · -- The target has the next number.
      rw [same, Table.get?_set_self, Option.some.injEq] at found
      exact .inl ⟨used, by omega, found.symm⟩
    · rw [Table.get?_set_of_ne _ _ same] at found
      exact (laid.inside found).imp_left fun ⟨number, small, there⟩ => ⟨number, by omega, there⟩
  · -- Two names share a slot only if both are the target or neither is.
    intro name other offset found otherFound
    by_cases same : name = target
    · by_cases otherSame : other = target
      · rw [same, otherSame]
      · rw [Table.get?_set_of_ne _ _ otherSame] at otherFound
        rw [same, Table.get?_set_self] at found
        exact absurd (otherFound.trans found.symm) unused
    · rw [Table.get?_set_of_ne _ _ same] at found
      by_cases otherSame : other = target
      · rw [otherSame, Table.get?_set_self] at otherFound
        exact absurd (found.trans otherFound.symm) unused
      · rw [Table.get?_set_of_ne _ _ otherSame] at otherFound
        exact laid.apart found otherFound

/-- The slots of parameters from the stack lie apart. -/
private theorem laid_stackSlots {params : List (Parameter α)}
    (distinct : (params.map (·.name)).Nodup) :
    Laid params 0 (stackSlots params) := by
  -- Every entry tells the position of its parameter, and positions have one parameter each.
  have listed : ∀ {name offset}, (stackSlots params).get? name = some offset →
      ∃ (index : Nat) (param : Parameter α), 8 ≤ index ∧ params[index]? = some param ∧
        param.name = name ∧ offset = stackOffset index params.length := by
    intro name offset found
    have member := Table.mem_of_get? found
    rw [entries_stackSlots distinct] at member
    obtain ⟨⟨param, index⟩, dropped, same⟩ := List.mem_map.mp member
    cases same
    obtain ⟨late, there⟩ := mem_drop_zipIdx.mp dropped
    exact ⟨index, param, late, there, rfl, rfl⟩
  refine ⟨fun found => .inr (listed found), ?_⟩
  intro name other offset found otherFound
  obtain ⟨index, param, -, here, rfl, same⟩ := listed found
  obtain ⟨position, another, -, there, rfl, otherSame⟩ := listed otherFound
  -- Equal offsets come from equal positions, where one parameter stands.
  have positions := stackOffset_inj (same.symm.trans otherSame)
  rw [positions, there, Option.some.injEq] at here
  rw [here]

/-- Arrivals with slots in a row lie apart from all others. -/
theorem Laid.arrivals {params : List (Parameter α)} {arrivals : List Arrival} {used : Nat}
    {slots : Table Int} (laid : Laid params used slots)
    (numbered : ∀ position arrival, arrivals[position]? = some arrival →
      arrival.offset = slotOffset (used + position)) :
    Laid params (used + arrivals.length)
      (arrivals.foldl (fun slots arrival => slots.set arrival.name arrival.offset) slots) := by
  -- Each arrival takes the next slot, which no earlier one has.
  induction arrivals generalizing used slots with
  | nil => exact laid
  | cons arrival rest ih =>
    have here : arrival.offset = slotOffset used := numbered 0 arrival rfl
    rw [List.foldl_cons, here, List.length_cons, Nat.add_comm rest.length, ← Nat.add_assoc]
    refine ih (laid.set arrival.name) ?_
    intro position later found
    rw [numbered (position + 1) later (by simpa using found), Nat.add_right_comm, Nat.add_assoc]

/-- The arrival at a position has the slot of that number. -/
private theorem offset_arrivalsOf {params : List (Parameter α)} {position : Nat} {arrival : Arrival}
    (found : (arrivalsOf params)[position]? = some arrival) :
    arrival.offset = slotOffset position := by
  -- The register at a position has that position for its number.
  simp only [arrivalsOf, List.getElem?_map, Option.map_eq_some_iff, Prod.exists] at found
  obtain ⟨param, register, paired, rfl⟩ := found
  obtain ⟨-, there⟩ := List.getElem?_zip_eq_some.mp paired
  obtain ⟨small, rfl⟩ := List.getElem?_eq_some_iff.mp there
  simp

/-- Targets take slots: those there are stay, and all lie apart. -/
structure Places (params : List (Parameter α)) (placed next : Table Int × Nat) : Prop where
  laid : Laid params placed.2 placed.1 → Laid params next.2 next.1
  longer : placed.2 ≤ next.2
  distinct : placed.1.names.Nodup → next.1.names.Nodup
  kept : ∀ {name offset}, placed.1.get? name = some offset → next.1.get? name = some offset

/-- A statement gives its target a slot or leaves everything as it is. -/
private theorem placeTarget_places (params : List (Parameter α)) (reads : List String)
    (placed : Table Int × Nat) (statement : Statement α) :
    Places params placed (placeTarget reads placed statement) := by
  -- Only an assignment to a name that is read and has no slot makes one.
  have same : Places params placed placed := ⟨id, Nat.le_refl _, id, id⟩
  cases statement with
  | returns _ _ => exact same
  | assign _ target _ =>
    simp only [placeTarget]
    split
    · exact same
    · rename_i fresh
      rw [Bool.or_eq_true, not_or, Table.contains_iff] at fresh
      refine ⟨fun laid => laid.set target, Nat.le_succ _, ?_, ?_⟩
      · intro distinct
        rw [Table.names_set_of_not_mem _ _ fresh.1]
        exact distinct.append (by simp) (by simpa using fresh.1)
      · intro name offset found
        -- A name with a slot is not the target, which has none.
        have differ : name ≠ target := by
          rintro rfl
          exact fresh.1 (List.mem_map.mpr ⟨_, Table.mem_of_get? found, rfl⟩)
        rwa [Table.get?_set_of_ne _ _ differ]

/-- Live statements give their targets slots, one after the other. -/
theorem foldl_placeTarget_places (params : List (Parameter α)) (reads : List String)
    (live : List (Statement α)) (placed : Table Int × Nat) :
    Places params placed (live.foldl (placeTarget reads) placed) := by
  -- What one statement keeps is kept by all of them in turn.
  induction live generalizing placed with
  | nil => exact ⟨id, Nat.le_refl _, id, id⟩
  | cons statement rest ih =>
    have first := placeTarget_places params reads placed statement
    have later := ih (placeTarget reads placed statement)
    exact ⟨later.laid ∘ first.laid, Nat.le_trans first.longer later.longer,
      later.distinct ∘ first.distinct, fun found => later.kept (first.kept found)⟩

/-- Every target that is read has a slot in the end. -/
private theorem isSome_foldl_placeTarget {reads : List String} {live : List (Statement α)}
    {placed : Table Int × Nat} {target : String} (assigned : target ∈ Statement.targets live)
    (read : target ∈ reads) :
    ((live.foldl (placeTarget reads) placed).1.get? target).isSome = true := by
  -- The target is that of some statement, and its turn comes.
  obtain ⟨statement, member, found⟩ := List.mem_filterMap.mp assigned
  cases statement with
  | returns _ _ => simp [Statement.target?] at found
  | assign note name value =>
    cases found
    obtain ⟨before, after, rfl⟩ := List.append_of_mem member
    rw [List.foldl_append, List.foldl_cons]
    generalize before.foldl (placeTarget reads) placed = middle
    -- The target has a slot behind its own turn, and keeps it.
    have here : ((placeTarget reads middle (.assign note target value)).1.get? target).isSome := by
      simp only [placeTarget]
      split
      · rename_i known
        rw [Table.isSome_get?]
        simpa [read] using known
      · simp [Table.get?_set_self]
    obtain ⟨offset, given⟩ := Option.isSome_iff_exists.mp here
    rw [(foldl_placeTarget_places ([] : List (Parameter α)) reads after _).kept given]
    rfl

/-- Where a parameter is kept, by its position. -/
def parameterOffset (index arity : Nat) : Int :=
  if index < 8 then slotOffset index else stackOffset index arity

/-- Every parameter has the slot of its position. -/
private theorem get?_parameterSlots {params : List (Parameter α)}
    (distinct : (params.map (·.name)).Nodup) {index : Nat} {param : Parameter α}
    (there : params[index]? = some param) :
    (parameterSlots params).get? param.name = some (parameterOffset index params.length) := by
  -- The entry of a parameter is the only one of its name, so it is the one that is found.
  apply Table.get?_of_mem (nodup_names_parameterSlots distinct)
  rw [entries_parameterSlots distinct, List.mem_append, List.mem_map, List.mem_map,
    parameterOffset]
  by_cases early : index < 8
  · rw [if_pos early]
    have arrives : Arrival.mk param.name ⟨index, early⟩ (slotOffset index) ∈ arrivalsOf params :=
      mem_arrivalsOf.mpr ⟨param, there, rfl, rfl⟩
    exact .inr ⟨_, arrives, rfl⟩
  · rw [if_neg early]
    exact .inl ⟨(param, index), mem_drop_zipIdx.mpr ⟨by omega, there⟩, rfl⟩

/-- What a frame does for a function; a number of its slots are in use. -/
structure Serves (function : Function α) (frame : Frame) (used : Nat) : Prop where
  size : frame.size = aligned (slotSize * used)
  laid : Laid function.params used frame.slots
  arrivals : ∀ arrival ∈ frame.arrivals,
    arrival.offset = slotOffset arrival.register.val ∧ arrival.register.val < used
  parameters : ∀ {index : Nat} {param : Parameter α}, function.params[index]? = some param →
    param.name ∈ frame.reads →
      frame.slots.get? param.name = some (parameterOffset index function.params.length)
  arrives : ∀ {register : DoubleRegister} {param : Parameter α},
    function.params[register.val]? = some param → param.name ∈ frame.reads →
      ⟨param.name, register, slotOffset register.val⟩ ∈ frame.arrivals
  targets : ∀ target ∈ Statement.targets function.live, target ∈ frame.reads →
    (frame.slots.get? target).isSome = true

/-- The frame of a function with distinct parameters serves it. -/
theorem ofFunction_serves (env : Environment) {function : Function α}
    (distinct : (function.params.map (·.name)).Nodup) :
    ∃ used, Serves function (ofFunction env function) used := by
  -- A function that reads nothing has no frame, and nothing is asked of it.
  by_cases empty : (readsOf (env.scope function.name) function.live).isEmpty = true
  · have none : ∀ name, name ∉ readsOf (env.scope function.name) function.live := by
      simp [List.isEmpty_iff.mp empty]
    have made : ofFunction env function =
        ⟨0, stackSlots function.params, [], readsOf (env.scope function.name) function.live⟩ := by
      rw [ofFunction, if_pos empty]
    refine ⟨0, ?_⟩
    rw [made]
    exact ⟨rfl, laid_stackSlots distinct, by simp, fun _ read => absurd read (none _),
      fun _ read => absurd read (none _), fun _ _ read => absurd read (none _)⟩
  · have numbered : ∀ position arrival, (arrivalsOf function.params)[position]? = some arrival →
        arrival.offset = slotOffset (0 + position) := by
      intro position arrival found
      rw [offset_arrivalsOf found, Nat.zero_add]
    have start := (laid_stackSlots distinct).arrivals numbered
    rw [Nat.zero_add] at start
    rw [ofFunction, if_neg empty]
    -- The targets take their slots behind those of the parameters.
    have places := foldl_placeTarget_places function.params
      (readsOf (env.scope function.name) function.live) function.live
      (parameterSlots function.params, (arrivalsOf function.params).length)
    refine ⟨_, rfl, places.laid start, ?_, ?_, ?_, ?_⟩
    · -- There are as many arrivals as registers and parameters allow.
      intro arrival member
      obtain ⟨param, there, -, same⟩ := mem_arrivalsOf.mp member
      refine ⟨same, Nat.lt_of_lt_of_le ?_ places.longer⟩
      have bound := (List.getElem?_eq_some_iff.mp there).1
      simp only [arrivalsOf, List.length_map, List.length_zip, List.length_finRange]
      omega
    · intro index param there _
      exact places.kept (get?_parameterSlots distinct there)
    · intro register param there _
      exact mem_arrivalsOf.mpr ⟨param, there, rfl, rfl⟩
    · intro target assigned read
      exact isSome_foldl_placeTarget assigned read

/-- A slot below the base lies within the bytes that are reserved. -/
theorem slotOffset_bounds {used number : Nat} (inUse : number < used) :
    -(aligned (slotSize * used) : Int) ≤ slotOffset number ∧ slotOffset number + slotSize ≤ 0 := by
  -- The size is rounded up, so the lowest slot in use still lies within it.
  simp only [aligned, slotOffset, slotSize]
  omega

namespace Serves

variable {function : Function α} {frame : Frame} {used : Nat}

/-- A slot lies below the base within the frame, or it is that of an argument above. -/
theorem inside (serves : Serves function frame used) {name : String} {offset : Int}
    (found : frame.slots.get? name = some offset) :
    (-(frame.size : Int) ≤ offset ∧ offset + slotSize ≤ 0) ∨
      ∃ index : Nat, 8 ≤ index ∧ index < function.arity ∧
        offset = stackOffset index function.arity := by
  -- Slots with a number lie below the base, and the others are arguments.
  rcases serves.laid.inside found with ⟨number, inUse, same⟩ | ⟨index, param, late, there, -, same⟩
  · rw [serves.size, same]
    exact .inl (slotOffset_bounds inUse)
  · exact .inr ⟨index, late, (List.getElem?_eq_some_iff.mp there).1, same⟩

/-- No slot lies below the bytes that are reserved. -/
theorem low (serves : Serves function frame used) {name : String} {offset : Int}
    (found : frame.slots.get? name = some offset) : -(frame.size : Int) ≤ offset := by
  -- Arguments lie above the base, and all other slots within the size.
  rcases serves.inside found with ⟨low, -⟩ | ⟨index, -, small, high⟩
  · exact low
  · simp only [stackOffset, spillSize] at high
    omega

/-- A frame without bytes keeps no parameter. -/
theorem arrivals_eq_nil (serves : Serves function frame used) (bare : frame.size = 0) :
    frame.arrivals = [] := by
  -- An arrival would have a slot in use, and the size would be positive.
  rw [List.eq_nil_iff_forall_not_mem]
  intro arrival member
  have inUse := (serves.arrivals arrival member).2
  rw [serves.size, aligned, slotSize] at bare
  omega

/-- The slots of different names do not overlap. -/
theorem apart (serves : Serves function frame used) {name other : String} {offset place : Int}
    (found : frame.slots.get? name = some offset) (otherFound : frame.slots.get? other = some place)
    (differ : name ≠ other) : offset + slotSize ≤ place ∨ place + slotSize ≤ offset := by
  -- Slots are whole multiples of their size, so different ones are a whole slot apart.
  have multiple : ∀ {name offset}, frame.slots.get? name = some offset →
      ∃ count : Int, offset = slotSize * count := by
    intro name offset found
    rcases serves.laid.inside found with ⟨number, -, same⟩ | ⟨index, param, -, -, -, same⟩
    · exact ⟨-(number + 1), by simp only [same, slotOffset, slotSize]; omega⟩
    · refine ⟨2 + 2 * (function.params.length - 1 - index), ?_⟩
      simp only [same, stackOffset, slotSize, spillSize]
      omega
  -- Equal offsets would make the names equal.
  have distinct : offset ≠ place := by
    rintro rfl
    exact differ (serves.laid.apart found otherFound)
  obtain ⟨count, rfl⟩ := multiple found
  obtain ⟨number, rfl⟩ := multiple otherFound
  simp only [slotSize] at distinct ⊢
  omega

end Serves

end Frame

end DoubleLang
