import DoubleLang.Proofs.Frame.Slots
import DoubleLang.Proofs.Program.Copies

/-!
Storage of copies.

Storage is kept by name, and names are only ever compared. So where no two names are changed to the
same one, a copy of a function has the storage of the function under the changed names.
-/

namespace DoubleLang

variable {α β : Type}

/-- Steps through lists of related items keep states related. -/
private theorem foldl_of_forall₂ {σ τ : Type} {Related : α → β → Prop} {step : σ → α → σ}
    {copyStep : τ → β → τ} {image : σ → τ}
    {items : List α} {copies : List β} (related : List.Forall₂ Related items copies)
    (agrees : ∀ (state : σ) {item : α} {copy : β}, Related item copy →
      copyStep (image state) copy = image (step state item)) (state : σ) :
    copies.foldl copyStep (image state) = image (items.foldl step state) := by
  -- The states go along: what one step relates, the next one starts from.
  induction related generalizing state with
  | nil => rfl
  | cons first _ ih => rw [List.foldl_cons, agrees state first, ih, List.foldl_cons]

/-- A list of changed names has a changed name exactly if the list had the name. -/
theorem contains_map_of_injective {change : String → String}
    (injective : Function.Injective change) (names : List String) (name : String) :
    (names.map change).contains (change name) = names.contains name := by
  rw [Bool.eq_iff_iff, List.contains_iff_mem, List.contains_iff_mem,
    List.mem_map_of_injective injective]

/-- A parameter in a register, under its changed name. -/
def Frame.Arrival.rename (change : String → String) (arrival : Frame.Arrival) : Frame.Arrival :=
  { arrival with name := change arrival.name }

/-- Storage under changed names. -/
def Frame.rename (change : String → String) (frame : Frame) : Frame :=
  ⟨frame.size, frame.slots.rename change, frame.arrivals.map (Arrival.rename change),
    frame.reads.map change⟩

namespace Frame

/-- A frame whose names stay as they are. -/
@[simp] theorem rename_id (frame : Frame) : frame.rename id = frame := by
  -- Each arrival has a name of its own.
  have arrivals : Arrival.rename id = id := rfl
  simp [rename, arrivals]

section Reads

variable {change : String → String} (injective : Function.Injective change) (scope : Scope)
include injective

/-- Changed names are read in a changed scope exactly if the names are in theirs. -/
private theorem addReads_rename (reads names : List String) :
    addReads (scope.rename change) (reads.map change) (names.map change) =
      (addReads scope reads names).map change := by
  -- Names are added one by one, to changed names as to the names.
  rw [addReads, List.foldl_map]
  refine List.foldl_hom (List.map change) fun state name => ?_
  -- A name is compared with the scope and with what is read so far.
  rw [Table.contains_rename injective, contains_map_of_injective injective]
  split
  · rw [List.map_append, List.map_singleton]
  · rfl

/-- A copy of a statement returns the changed names. -/
private theorem addReturned_copy (reads : List String) {statement : Statement α}
    {copy : Statement β}
    (copied : statement.Copy change copy) :
    addReturned (scope.rename change) (reads.map change) copy =
      (addReturned scope reads statement).map change := by
  -- An assignment returns nothing.
  cases copied with
  | assign _ => rfl
  | returns value =>
    rw [addReturned, value.names_eq, addReads_rename injective, addReturned]

/-- A copy of an assignment adds the changed names, if its target is read. -/
private theorem addAssigned_copy (reads : List String) {statement : Statement α}
    {copy : Statement β}
    (copied : statement.Copy change copy) :
    addAssigned (scope.rename change) (reads.map change) copy =
      (addAssigned scope reads statement).map change := by
  -- What a function returns is there from the start.
  cases copied with
  | returns _ => rfl
  | assign value =>
    rw [addAssigned, value.names_eq, addReads_rename injective,
      contains_map_of_injective injective, addAssigned]
    split <;> rfl

variable {live : List (Statement α)} {copies : List (Statement β)}

/-- Copies of statements are closed under reading as the statements are. -/
private theorem closeReads_copy (copied : List.Forall₂ (Statement.Copy change) live copies)
    (turns : Nat)
    (reads : List String) :
    closeReads (scope.rename change) copies turns (reads.map change) =
      (closeReads scope live turns reads).map change := by
  -- Each turn goes through the same assignments.
  induction turns generalizing reads with
  | zero => rfl
  | succ turns ih =>
    have next := foldl_of_forall₂ copied (addAssigned_copy injective scope) reads
    simp only [closeReads, next, List.length_map, ih]
    -- Both stop when a turn adds nothing, and that is a matter of how many names there are.
    split <;> rfl

/-- Copies of live statements read the changed names. -/
private theorem readsOf_copy (copied : List.Forall₂ (Statement.Copy change) live copies) :
    readsOf (scope.rename change) copies = (readsOf scope live).map change := by
  -- The search starts from what is returned, and has a turn for every name in scope.
  have returned := foldl_of_forall₂ copied (addReturned_copy injective scope) []
  rw [List.map_nil] at returned
  rw [readsOf, returned, Table.length_rename, closeReads_copy injective scope copied, readsOf]

end Reads

section Slots

variable {change : String → String} (injective : Function.Injective change)

/-- The slots of parameters on the stack follow from their names. -/
private theorem stackSlots_eq (params : List (Parameter α)) :
    stackSlots params = ((params.map (·.name)).zipIdx.drop 8).foldl (fun slots (name, index) =>
      slots.set name (stackOffset index params.length)) .empty := by
  rw [List.zipIdx_map, ← List.map_drop, List.foldl_map]
  rfl

/-- The parameters in registers follow from their names. -/
private theorem arrivalsOf_eq_map (params : List (Parameter α)) :
    arrivalsOf params = ((params.map (·.name)).zip (List.finRange 8)).map fun (name, register) =>
      ⟨name, register, slotOffset register.val⟩ := by
  rw [List.zip_map_left, List.map_map]
  rfl

/-- Parameters under changed names arrive in the same registers. -/
private theorem arrivalsOf_copy {params : List (Parameter α)} {copies : List (Parameter β)}
    (copied : copies.map (·.name) = (params.map (·.name)).map change) :
    arrivalsOf copies = (arrivalsOf params).map (Arrival.rename change) := by
  -- A register is given by the position of a parameter, not by its name.
  rw [arrivalsOf_eq_map, copied, List.zip_map_left, List.map_map,
    arrivalsOf_eq_map, List.map_map]
  rfl

include injective

/-- Parameters under changed names are at the same places on the stack. -/
private theorem stackSlots_copy {params : List (Parameter α)} {copies : List (Parameter β)}
    (copied : copies.map (·.name) = (params.map (·.name)).map change) :
    stackSlots copies = (stackSlots params).rename change := by
  -- The offsets are counted from the last parameter, and there are as many.
  have lengths := congrArg List.length copied
  simp only [List.length_map] at lengths
  rw [stackSlots_eq, copied, List.zipIdx_map, ← List.map_drop, List.foldl_map,
    stackSlots_eq, lengths]
  show List.foldl _ (Table.rename change .empty) _ = _
  exact List.foldl_hom (Table.rename change) fun slots item =>
    Table.set_rename injective slots item.1 _

/-- Parameters under changed names have the same slots. -/
private theorem parameterSlots_copy {params : List (Parameter α)} {copies : List (Parameter β)}
    (copied : copies.map (·.name) = (params.map (·.name)).map change) :
    parameterSlots copies = (parameterSlots params).rename change := by
  -- Registers are stored below what came on the stack.
  rw [parameterSlots, stackSlots_copy injective copied, arrivalsOf_copy copied, List.foldl_map,
    parameterSlots]
  exact List.foldl_hom (Table.rename change) fun slots arrival =>
    Table.set_rename injective slots arrival.name _

/-- A copy of a statement takes a slot exactly if the statement does, and the same one. -/
private theorem placeTarget_copy (reads : List String) (placed : Table Int × Nat)
    {statement : Statement α} {copy : Statement β} (copied : statement.Copy change copy) :
    placeTarget (reads.map change) (placed.1.rename change, placed.2) copy =
      ((placeTarget reads placed statement).1.rename change,
        (placeTarget reads placed statement).2) := by
  -- A target is placed if it is read and has no slot; both are asked of changed names.
  cases copied with
  | returns _ => rfl
  | assign _ =>
    simp only [placeTarget, Table.contains_rename injective, contains_map_of_injective injective]
    split
    · rfl
    · rw [Table.set_rename injective]

/-- A copy of a function has the storage of the function, under the changed names. -/
theorem ofFunction_copy {env other : Environment} {function : Function α} {copy : Function β}
    (copied : function.Copy change copy)
    (scopes : other.scope copy.name = (env.scope function.name).rename change) :
    ofFunction other copy = (ofFunction env function).rename change := by
  -- First what the statements do not change: reads, arrivals, slots of parameters.
  have reads := readsOf_copy injective (env.scope function.name) copied.live
  have arrivals := arrivalsOf_copy copied.params
  have slots := parameterSlots_copy injective copied.params
  rw [parameterSlots, parameterSlots] at slots
  simp only [ofFunction, scopes, reads, stackSlots_copy injective copied.params, arrivals,
    List.isEmpty_map, List.length_map] at slots ⊢
  -- A function that needs no storage has an empty frame.
  split
  · rfl
  · -- Targets take their slots behind those of the parameters.
    have placed := foldl_of_forall₂ copied.live
      (placeTarget_copy injective (readsOf (env.scope function.name) function.live))
      (parameterSlots function.params, (arrivalsOf function.params).length)
    rw [slots]
    simp only [parameterSlots] at placed
    rw [placed]
    rfl

end Slots

end Frame

end DoubleLang
