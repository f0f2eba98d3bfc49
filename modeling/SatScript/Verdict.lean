/-!
# SatScript — verdicts

What a check of the constraints so far comes to.
-/

namespace SatScript

/-- The answer to a check. -/
inductive Verdict where
  | satisfiable
  | unsatisfiable
  | unknown
deriving DecidableEq

namespace Verdict

/-- The line that is printed for a verdict. -/
def text : Verdict → String
  | .satisfiable => "sat"
  | .unsatisfiable => "unsat"
  | .unknown => "unknown"

/-- The name of a verdict in the trace. -/
def name : Verdict → String
  | .satisfiable => "Satisfiable"
  | .unsatisfiable => "Unsatisfiable"
  | .unknown => "Unknown"

/-- The verdict that a back end's answer stands for: any answer but `sat` and
`unsat` leaves it open. -/
def ofAnswer (answer : String) : Verdict :=
  if answer = "sat" then .satisfiable
  else if answer = "unsat" then .unsatisfiable
  else .unknown

/-- What is printed for a verdict stands for it. -/
@[simp] theorem ofAnswer_text (verdict : Verdict) : ofAnswer verdict.text = verdict := by
  cases verdict <;> rfl

end Verdict

/-- Answers given beforehand, for checks made one after another: the first
is used up as long as another follows, so the last one stays. -/
structure Answers (α : Type) where
  coming : List α
deriving DecidableEq

namespace Answers

variable {α : Type}

/-- The next answer, or the one given otherwise if there are none, with the
answers that are left. -/
def next (answers : Answers α) (otherwise : α) : α × Answers α :=
  match answers.coming with
  | [] => (otherwise, answers)
  | [last] => (last, answers)
  | first :: second :: rest => (first, ⟨second :: rest⟩)

end Answers

end SatScript
