import DoubleLang.Proofs.Frame.Reads
import Mathlib.Logic.Function.Iterate
import Mathlib.Logic.Relation
import Mathlib.Order.Bounds.Basic

/-!
What a function reads is the least set of names that its return and its assignments ask for.

A set is closed when it has the names that are returned, and with a name also those that a live
assignment to it mentions. What is read is closed, and every closed set has all of it; so it is what
can be reached from the return, in whatever order the assignments stand.
-/

namespace DoubleLang

/-- A name stands somewhere in an expression; the function of a call does not count. -/
inductive Expr.Mentions {α : Type} (read : String) : Expr α → Prop where
  | name (note : α) : Mentions read (.name note read)
  | left {note : α} {op : BinaryOp} {left right : Expr α} :
      Mentions read left → Mentions read (.binary note op left right)
  | right {note : α} {op : BinaryOp} {left right : Expr α} :
      Mentions read right → Mentions read (.binary note op left right)
  | arg {note : α} {callee : String} {args : List (Expr α)} {arg : Expr α} :
      arg ∈ args → Mentions read arg → Mentions read (.call note callee args)
  | group {note : α} {inner : Expr α} : Mentions read inner → Mentions read (.group note inner)

mutual

/-- The names of an expression are those that stand in it. -/
theorem Expr.mem_names_iff {α : Type} {read : String} :
    ∀ expr : Expr α, read ∈ expr.names ↔ expr.Mentions read
  -- A literal has no names, so nothing stands in it.
  | .literal _ _ => by
    simp only [names, List.not_mem_nil, false_iff]
    intro stands
    cases stands
  | .name note known => by
    simp only [names, List.mem_singleton]
    constructor
    · rintro rfl
      exact .name note
    · intro stands
      cases stands
      rfl
  | .binary note op left right => by
    simp only [names, List.mem_append, mem_names_iff left, mem_names_iff right]
    constructor
    · rintro (stands | stands)
      · exact .left stands
      · exact .right stands
    · intro stands
      cases stands with
      | left stands => exact .inl stands
      | right stands => exact .inr stands
  | .call note callee args => by
    simp only [names, mem_namesOfAll_iff args]
    constructor
    · rintro ⟨arg, member, stands⟩
      exact .arg member stands
    · intro stands
      cases stands with
      | arg member stands => exact ⟨_, member, stands⟩
  | .group note inner => by
    simp only [names, mem_names_iff inner]
    constructor
    · exact .group
    · intro stands
      cases stands with
      | group stands => exact stands

/-- The names of expressions are those that stand in one of them. -/
private theorem Expr.mem_namesOfAll_iff {α : Type} {read : String} :
    ∀ args : List (Expr α), read ∈ Expr.namesOfAll args ↔ ∃ arg ∈ args, arg.Mentions read
  | [] => by simp [namesOfAll]
  | arg :: rest => by
    simp [namesOfAll, mem_names_iff arg, mem_namesOfAll_iff rest]

end

/-- The live statements are those through the first return, or all of them if there is none. -/
private theorem Function.live_eq_take {α : Type} (function : Function α) :
    function.live = function.body.take (function.body.findIdx (·.isReturn) + 1) := by
  -- Live statements are taken up to and with the first return.
  unfold Function.live
  induction function.body with
  | nil => rfl
  | cons statement rest ih =>
    -- A return is at the first place, and any other statement puts it off by one.
    cases leaves : statement.isReturn with
    | true => simp [Statement.live, leaves, List.findIdx_cons]
    | false => simp [Statement.live, leaves, List.findIdx_cons, ih]

namespace Frame

variable {α : Type} {scope : Scope} {live : List (Statement α)}

/-- A name of a scope stands in what live statements return. -/
def Returned (scope : Scope) (live : List (Statement α)) (name : String) : Prop :=
  ∃ note value, Statement.returns note value ∈ live ∧ value.Mentions name ∧ name ∈ scope.names

/-- A name of a scope stands in what a live statement assigns to a target. -/
def Feeds (scope : Scope) (live : List (Statement α)) (target name : String) : Prop :=
  ∃ note value, Statement.assign note target value ∈ live ∧ value.Mentions name ∧
    name ∈ scope.names

/-- A set of names that has what is returned, and what is assigned to any of its names. -/
structure Closed (scope : Scope) (live : List (Statement α)) (names : Set String) : Prop where
  returned : ∀ {name}, Returned scope live name → name ∈ names
  assigned : ∀ {target name}, target ∈ names → Feeds scope live target name → name ∈ names

/-- One turn through the assignments. -/
def turn (scope : Scope) (live : List (Statement α)) (reads : List String) : List String :=
  live.foldl (addAssigned scope) reads

/-- What is read behind an addition was read before, or it is a name of the scope among those
added. -/
private theorem mem_addReads_iff {reads names : List String} {name : String} :
    name ∈ addReads scope reads names ↔
      name ∈ reads ∨ (name ∈ names ∧ name ∈ scope.names) := by
  -- Adding loses nothing, and takes in only what is in scope.
  constructor
  · intro read
    -- Each of the names in turn either is added, as one of the scope, or changes nothing.
    refine List.foldlRecOn (motive := fun next => name ∈ next →
      name ∈ reads ∨ (name ∈ names ∧ name ∈ scope.names)) names _ .inl ?_ read
    intro next known first member read
    split at read
    · rename_i added
      rw [Bool.and_eq_true, Table.contains_iff] at added
      rcases List.mem_append.mp read with before | single
      · exact known before
      · rw [List.mem_singleton.mp single]
        exact .inr ⟨member, added.1⟩
    · exact known read
  · rintro (before | ⟨added, known⟩)
    · exact (addReads_extends scope reads names).subset before
    · exact mem_addReads added known

namespace Closed

variable {names : Set String}

/-- What is returned stays within a closed set. -/
theorem addReturned (closed : Closed scope live names) {statement : Statement α}
    (member : statement ∈ live) {reads : List String} (inside : ∀ name ∈ reads, name ∈ names) :
    ∀ name ∈ Frame.addReturned scope reads statement, name ∈ names := by
  -- Only a return adds names, and the set has all of these.
  cases statement with
  | assign _ _ _ => exact inside
  | returns note value =>
    intro name read
    rcases mem_addReads_iff.mp read with before | ⟨listed, known⟩
    · exact inside name before
    · exact closed.returned ⟨note, value, member, (value.mem_names_iff).mp listed, known⟩

/-- What is assigned to names of a closed set stays within it. -/
theorem addAssigned (closed : Closed scope live names) {statement : Statement α}
    (member : statement ∈ live) {reads : List String} (inside : ∀ name ∈ reads, name ∈ names) :
    ∀ name ∈ Frame.addAssigned scope reads statement, name ∈ names := by
  -- A return assigns nothing.
  cases statement with
  | returns _ _ => exact inside
  | assign note target value =>
    intro name read
    simp only [Frame.addAssigned, List.contains_iff_mem] at read
    split at read
    · -- The target has been read, so it is in the set, and with it what it is assigned.
      rename_i asked
      rcases mem_addReads_iff.mp read with before | ⟨listed, known⟩
      · exact inside name before
      · exact closed.assigned (inside target asked)
          ⟨note, value, member, (value.mem_names_iff).mp listed, known⟩
    · exact inside name read

/-- Any number of turns stays within a closed set. -/
theorem closeReads (closed : Closed scope live names) (turns : Nat) {reads : List String}
    (inside : ∀ name ∈ reads, name ∈ names) :
    ∀ name ∈ Frame.closeReads scope live turns reads, name ∈ names := by
  -- Induction on the turns, where each starts from what the last one has left.
  induction turns generalizing reads with
  | zero => exact inside
  | succ turns ih =>
    simp only [Frame.closeReads]
    split
    · exact inside
    · -- A turn is made of its statements, and each of them stays within the set.
      exact ih (List.foldlRecOn (motive := fun next => ∀ name ∈ next, name ∈ names) live _ inside
        fun next within statement member => closed.addAssigned member within)

/-- Every closed set has all that is read. -/
theorem readsOf (closed : Closed scope live names) :
    ∀ name ∈ Frame.readsOf scope live, name ∈ names :=
  -- Nothing is read at the start, and neither the return nor the turns leave the set.
  closed.closeReads _ (List.foldlRecOn (motive := fun next => ∀ name ∈ next, name ∈ names) live _
    (by simp) fun next within statement member => closed.addReturned member within)

end Closed

/-- What is read is closed. -/
private theorem closed_readsOf (scope : Scope) (live : List (Statement α)) :
    Closed scope live {name | name ∈ readsOf scope live} := by
  -- A return always has code, and an assignment has it because its target is read.
  constructor
  · rintro name ⟨note, value, member, stands, known⟩
    exact mem_readsOf member (fun _ _ _ same => by cases same)
      ((value.mem_names_iff).mpr stands) known
  · rintro target name read ⟨note, value, member, stands, known⟩
    refine mem_readsOf member ?_ ((value.mem_names_iff).mpr stands) known
    rintro _ _ _ ⟨⟩
    exact read

/-- What can be reached from the return through assignments is closed. -/
private theorem closed_reachable (scope : Scope) (live : List (Statement α)) :
    Closed scope live {name | ∃ first, Returned scope live first ∧
      Relation.ReflTransGen (Feeds scope live) first name} := by
  -- A way to the target goes on to what it is assigned.
  constructor
  · intro name returned
    exact ⟨name, returned, .refl⟩
  · rintro target name ⟨first, returned, reached⟩ feeds
    exact ⟨first, returned, reached.tail feeds⟩

/-- What is read can be reached from the return through assignments, and nothing else can. -/
theorem mem_readsOf_iff_reachable {name : String} :
    name ∈ readsOf scope live ↔ ∃ first, Returned scope live first ∧
      Relation.ReflTransGen (Feeds scope live) first name := by
  -- Reachable names are a closed set themselves.
  constructor
  · exact (closed_reachable scope live).readsOf name
  · rintro ⟨first, returned, reached⟩
    -- Every step along the way stays within the closed set of what is read.
    have closed := closed_readsOf scope live
    induction reached with
    | refl => exact closed.returned returned
    | tail _ feeds ih => exact closed.assigned ih feeds

/-- Turns are taken until one of them adds nothing, or until there are none left. -/
private theorem closeReads_eq_iterate (scope : Scope) (live : List (Statement α)) (turns : Nat)
    (reads : List String) :
    ∃ taken ≤ turns, closeReads scope live turns reads = (turn scope live)^[taken] reads ∧
      ∀ earlier < taken, ((turn scope live)^[earlier + 1] reads).length ≠
        ((turn scope live)^[earlier] reads).length := by
  -- A turn that adds nothing ends it.
  induction turns generalizing reads with
  | zero => exact ⟨0, Nat.le_refl 0, rfl, by simp⟩
  | succ turns ih =>
    simp only [closeReads]
    split
    · exact ⟨0, by omega, rfl, by simp⟩
    · rename_i grows
      obtain ⟨taken, few, same, growing⟩ := ih (turn scope live reads)
      refine ⟨taken + 1, by omega, same, ?_⟩
      intro earlier small
      -- The first turn is the one just taken, and the others are those of the rest.
      cases earlier with
      | zero => exact grows
      | succ earlier => exact growing earlier (by omega)

/-- Every name that is read is listed once. -/
private theorem nodup_readsOf (scope : Scope) (live : List (Statement α)) :
    (readsOf scope live).Nodup := by
  -- A name is added only where it is not there yet.
  have returned := Extends.foldl (addReturned_extends (α := α) scope) live []
  exact (closeReads_extends scope live _ _).distinct (returned.distinct (by simp))

/-- The turns through the assignments come to an end: there is a first turn that adds nothing, and
what is read is what it leaves. It lists every name of the least closed set once, and these are the
names that can be reached from the return through live assignments in any order. -/
theorem reads_are_least_closed (env : Environment) (function : Function α) :
    let scope := env.scope function.name
    let live := function.body.take (function.body.findIdx (·.isReturn) + 1)
    let start := live.foldl (addReturned scope) []
    let reads := (ofFunction env function).reads
    (∃ turns ≤ scope.names.length,
      (∀ earlier < turns, ((turn scope live)^[earlier + 1] start).length ≠
        ((turn scope live)^[earlier] start).length) ∧
      ((turn scope live)^[turns + 1] start).length = ((turn scope live)^[turns] start).length ∧
      reads = (turn scope live)^[turns + 1] start) ∧
    reads.Nodup ∧
    IsLeast {names : Set String | Closed scope live names} {name | name ∈ reads} ∧
    ∀ name, name ∈ reads ↔ ∃ first, Returned scope live first ∧
      Relation.ReflTransGen (Feeds scope live) first name := by
  intro scope live start reads
  -- A frame reads what its live statements do, and these end with the first return.
  have made : reads = readsOf scope live :=
    (reads_ofFunction env function).trans (congrArg (readsOf scope) function.live_eq_take)
  rw [made]
  refine ⟨?_, nodup_readsOf scope live,
    ⟨closed_readsOf scope live, fun names closed => closed.readsOf⟩,
    fun name => mem_readsOf_iff_reachable⟩
  obtain ⟨turns, few, same, growing⟩ := closeReads_eq_iterate scope live scope.entries.length start
  -- What the turns leave is what is read, so one more turn leaves it as it is.
  have last : (turn scope live)^[turns + 1] start = (turn scope live)^[turns] start := by
    rw [Function.iterate_succ_apply', ← same]
    exact foldl_addAssigned_readsOf scope live
  exact ⟨turns, by simpa [Table.names] using few, growing, congrArg List.length last,
    same.trans last.symm⟩

end Frame

end DoubleLang
