import DoubleLang.Diagnostic

/-! Work that shares a log of diagnostics: it makes a value, or it adds a report and gives up. -/

namespace DoubleLang

/-- Work over a log: what it makes, unless it gives up, and the log it leaves. -/
def Logged (α : Type) : Type :=
  List Diagnostic → Option α × List Diagnostic

namespace Logged

variable {α β : Type}

/-- Adds a report to the end of the log, and gives up. -/
def giveUp (report : Diagnostic) : Logged α :=
  fun log => (none, log ++ [report])

/-- Goes on with what has been made; what gives up ends all of the work. -/
def andThen (work : Logged α) (next : α → Logged β) : Logged β :=
  fun log =>
    match work log with
    | (some value, log) => next value log
    | (none, log) => (none, log)

instance : Monad Logged where
  pure value := fun log => (some value, log)
  bind := andThen

/-- The work of which the outcome is known already. -/
def ofExcept : Except Diagnostic α → Logged α
  | .ok value => pure value
  | .error report => giveUp report

instance : LawfulMonad Logged := by
  -- Two of the laws look at whether the first work has made something.
  refine LawfulMonad.mk' Logged ?_ ?_ ?_
  · intro α work
    funext log
    show andThen work _ log = work log
    unfold andThen
    rcases work log with ⟨_ | value, left⟩ <;> rfl
  · intro α β value next
    rfl
  · intro α β γ work next last
    funext log
    show andThen (andThen work next) last log = andThen work _ log
    unfold andThen
    rcases work log with ⟨_ | value, left⟩ <;> rfl

/-- Behind work that gives up nothing is done. -/
@[simp] theorem giveUp_bind (report : Diagnostic) (next : α → Logged β) :
    giveUp report >>= next = giveUp report :=
  rfl

/-- What is known already is recorded. -/
theorem ofExcept_apply (outcome : Except Diagnostic α) (log : List Diagnostic) :
    ofExcept outcome log = Diagnostic.record log outcome := by
  cases outcome <;> rfl

end Logged

end DoubleLang
