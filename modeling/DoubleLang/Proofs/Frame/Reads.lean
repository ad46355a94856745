import DoubleLang.Frame
import Mathlib.Data.List.Nodup
import Mathlib.Data.List.Perm.Subperm

/-!
The names that a function reads, up to the point where no more are found.

Every turn through the assignments only adds names of the scope, each of them once. There are as
many turns as the scope has names, so the last one finds nothing new.
-/

namespace DoubleLang.Frame

variable {α : Type}

/-- Names of a scope are added behind those there are, none of them twice. -/
structure Extends (scope : Scope) (reads next : List String) : Prop where
  front : reads <+: next
  distinct : reads.Nodup → next.Nodup
  inside : ∀ name ∈ next, name ∈ reads ∨ name ∈ scope.names

namespace Extends

variable {scope : Scope} {reads next last : List String}

/-- What is read extends itself. -/
theorem refl (scope : Scope) (reads : List String) : Extends scope reads reads :=
  ⟨List.prefix_refl _, id, fun _ => .inl⟩

/-- What extends an extension is an extension. -/
theorem trans (first : Extends scope reads next) (second : Extends scope next last) :
    Extends scope reads last := by
  -- A name that comes in at last is new to the first turn or to the second.
  refine ⟨first.front.trans second.front, second.distinct ∘ first.distinct, ?_⟩
  intro name member
  rcases second.inside name member with member | member
  · exact first.inside name member
  · exact .inr member

/-- Names that have been found stay found. -/
theorem subset (extended : Extends scope reads next) : reads ⊆ next :=
  extended.front.subset

/-- Nothing has been added when the number of names is the same. -/
private theorem eq_of_length (extended : Extends scope reads next)
    (same : next.length = reads.length) :
    next = reads :=
  (extended.front.eq_of_length same.symm).symm

/-- Nothing can be added to all names of the scope. -/
private theorem eq_of_full (extended : Extends scope reads next) (distinct : reads.Nodup)
    (full : scope.names ⊆ reads) : next = reads := by
  -- What is added comes behind, so it is enough that nothing stands there.
  obtain ⟨more, rfl⟩ := extended.front
  cases more with
  | nil => simp
  | cons name more =>
    -- A first new name would be one of the scope, so it would be there already.
    have once := extended.distinct distinct
    have known : name ∈ reads :=
      (extended.inside name (by simp)).elim id fun listed => full listed
    rw [List.nodup_append] at once
    exact absurd rfl (once.2.2 name known name (by simp))

/-- Steps that each extend what is read extend it together. -/
theorem foldl {β : Type} {step : List String → β → List String}
    (extend : ∀ reads item, Extends scope reads (step reads item)) (items : List β)
    (reads : List String) : Extends scope reads (items.foldl step reads) := by
  -- Each step extends what the steps before it have left.
  induction items generalizing reads with
  | nil => exact refl scope reads
  | cons item rest ih => exact (extend reads item).trans (ih _)

/-- Where steps together add nothing, none of them does. -/
private theorem step_eq_of_foldl_eq {β : Type} {step : List String → β → List String}
    (extend : ∀ reads item, Extends scope reads (step reads item)) {items : List β}
    {reads : List String} (same : items.foldl step reads = reads) :
    ∀ item ∈ items, step reads item = reads := by
  -- Steps only add, so what is the same at the end was the same all along.
  induction items with
  | nil => simp
  | cons item rest ih =>
    rw [List.foldl_cons] at same
    have later := (foldl extend rest (step reads item)).front
    rw [same] at later
    -- What the first step leaves lies between the start and the end, which are the same.
    have here : step reads item = reads :=
      (extend reads item).eq_of_length
        (Nat.le_antisymm later.length_le (extend reads item).front.length_le)
    rw [here] at same
    intro other member
    rcases List.mem_cons.mp member with rfl | member
    · exact here
    · exact ih same other member

end Extends

/-- Adding names extends what is read. -/
theorem addReads_extends (scope : Scope) (reads names : List String) :
    Extends scope reads (addReads scope reads names) := by
  -- A name is added only if it is in the scope and not there yet.
  refine Extends.foldl (fun reads name => ?_) names reads
  split
  · rename_i fresh
    simp only [Bool.and_eq_true, Bool.not_eq_true', Table.contains_iff] at fresh
    obtain ⟨known, unread⟩ := fresh
    refine ⟨List.prefix_append _ _, ?_, ?_⟩
    · intro distinct
      -- The name is not among the others, so it stands once.
      have absent : name ∉ reads := by simpa using unread
      exact List.Nodup.append distinct (by simp) (by simpa using absent)
    · intro other member
      rcases List.mem_append.mp member with member | member
      · exact .inl member
      · exact .inr (List.mem_singleton.mp member ▸ known)
  · exact Extends.refl scope reads

/-- Every name of the scope among those added is read. -/
theorem mem_addReads {scope : Scope} {reads names : List String} {name : String}
    (member : name ∈ names) (known : name ∈ scope.names) : name ∈ addReads scope reads names := by
  -- The name has its turn, and later turns only add.
  induction names generalizing reads with
  | nil => simp at member
  | cons first rest ih =>
    rcases List.mem_cons.mp member with rfl | member
    · -- The name is there behind its own turn, and stays.
      refine (addReads_extends scope _ rest).subset ?_
      by_cases read : name ∈ reads
      · simp [read]
      · simp [read, Table.contains, known]
    · exact ih member

/-- Adding what is returned extends what is read. -/
theorem addReturned_extends (scope : Scope) (reads : List String) (statement : Statement α) :
    Extends scope reads (addReturned scope reads statement) := by
  -- An assignment returns nothing.
  cases statement with
  | assign _ _ _ => exact Extends.refl scope reads
  | returns _ value => exact addReads_extends scope reads value.names

/-- Adding what is assigned extends what is read. -/
private theorem addAssigned_extends (scope : Scope) (reads : List String)
    (statement : Statement α) :
    Extends scope reads (addAssigned scope reads statement) := by
  -- An assignment to a name that nobody reads adds nothing.
  cases statement with
  | returns _ _ => exact Extends.refl scope reads
  | assign _ target value =>
    simp only [addAssigned]
    split
    · exact addReads_extends scope reads value.names
    · exact Extends.refl scope reads

/-- Going through the assignments extends what is read. -/
theorem closeReads_extends (scope : Scope) (live : List (Statement α)) (turns : Nat)
    (reads : List String) : Extends scope reads (closeReads scope live turns reads) := by
  -- Every turn extends what the turns before it have left.
  induction turns generalizing reads with
  | zero => exact Extends.refl scope reads
  | succ turns ih =>
    simp only [closeReads]
    split
    · exact Extends.refl scope reads
    · exact (Extends.foldl (addAssigned_extends scope) live reads).trans (ih _)

/-- With turns for every name of the scope that is left, one more turn adds nothing. -/
private theorem closeReads_closed {scope : Scope} {live : List (Statement α)} {turns : Nat}
    {reads : List String} (distinct : reads.Nodup) (inside : reads ⊆ scope.names)
    (enough : scope.names.length ≤ reads.length + turns) :
    live.foldl (addAssigned scope) (closeReads scope live turns reads) =
      closeReads scope live turns reads := by
  -- Every turn that adds something uses up a name of the scope.
  induction turns generalizing reads with
  | zero =>
    -- No turn is left because every name of the scope is read.
    have full : scope.names ⊆ reads :=
      ((distinct.subperm inside).perm_of_length_le (by simpa using enough)).symm.subset
    exact (Extends.foldl (addAssigned_extends scope) live reads).eq_of_full distinct full
  | succ turns ih =>
    -- A turn that adds nothing is the last, and any other brings the number nearer.
    have extended := Extends.foldl (addAssigned_extends (α := α) scope) live reads
    simp only [closeReads]
    split
    · rename_i same
      exact extended.eq_of_length same
    · rename_i differ
      refine ih (extended.distinct distinct) ?_ ?_
      · intro name member
        exact (extended.inside name member).elim (fun known => inside known) id
      · have longer := extended.front.length_le
        omega

/-- Only names of the scope are read. -/
theorem readsOf_subset (scope : Scope) (live : List (Statement α)) :
    readsOf scope live ⊆ scope.names := by
  -- Nothing is read at the start, so all that is read has been added from the scope.
  have returned := Extends.foldl (addReturned_extends (α := α) scope) live []
  intro name member
  rcases (closeReads_extends scope live _ _).inside name member with member | member
  · exact (returned.inside name member).elim (by simp) id
  · exact member

/-- One more turn adds nothing to what is read. -/
theorem foldl_addAssigned_readsOf (scope : Scope) (live : List (Statement α)) :
    live.foldl (addAssigned scope) (readsOf scope live) = readsOf scope live := by
  -- What is returned is made of names of the scope, each once, so there are turns enough.
  have returned := Extends.foldl (addReturned_extends (α := α) scope) live []
  refine closeReads_closed (returned.distinct (by simp)) ?_ (by simp [Table.names])
  intro name found
  exact (returned.inside name found).elim (by simp) id

/-- Whatever has code, the names of the scope in its expression are read. -/
theorem mem_readsOf {scope : Scope} {live : List (Statement α)} {statement : Statement α}
    (member : statement ∈ live)
    (needed : ∀ note target value, statement = .assign note target value →
      target ∈ readsOf scope live)
    {name : String} (read : name ∈ statement.value.names) (known : name ∈ scope.names) :
    name ∈ readsOf scope live := by
  -- A return is read outright, an assignment through its target.
  cases statement with
  | returns note value =>
    -- What is returned is read from the start, before the turns begin.
    refine (closeReads_extends scope live _ _).subset ?_
    obtain ⟨before, after, rfl⟩ := List.append_of_mem member
    rw [List.foldl_append, List.foldl_cons]
    exact (Extends.foldl (addReturned_extends scope) after _).subset (mem_addReads read known)
  | assign note target value =>
    -- One more turn adds nothing, and it would add the names of this assignment.
    have step := Extends.step_eq_of_foldl_eq (addAssigned_extends scope)
      (foldl_addAssigned_readsOf scope live) _ member
    have target_read : (readsOf scope live).contains target = true := by
      simpa using needed note target value rfl
    rw [addAssigned, if_pos target_read] at step
    rw [← step]
    exact mem_addReads read known

/-- The names that a frame takes as read. -/
theorem reads_ofFunction (env : Environment) (function : Function α) :
    (ofFunction env function).reads = readsOf (env.scope function.name) function.live := by
  -- Both forms of a frame list the same names.
  rw [ofFunction]
  split
  · rfl
  · rfl

end DoubleLang.Frame
