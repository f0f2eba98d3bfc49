import SatScript.Expr.Basic
import SatScript.Fault
import SatScript.Table
import SatScript.Verdict
/-!
# SatScript — solvers

A solver takes declarations and assertions, which accumulate, and answers
checks. Only an assertion can fail, and then the solver is as it was. The
`Recorder` is the solver that keeps a list of what it was asked and
answers from a list.
-/

namespace SatScript

/-- What a check finds: a verdict, and a model if one was asked for and the
verdict is satisfiable. -/
structure Findings where
  verdict : Verdict
  model : Option (Table String) := none
deriving DecidableEq

/-- What a script asks of a solver. -/
class Solver (σ : Type) where
  /-- Declare a variable. -/
  declare : σ → String → BaseSort → σ
  /-- Add a constraint. -/
  assert : σ → Expr → Except BackendFault σ
  /-- Check the constraints so far, with or without a model. -/
  check : σ → Bool → Findings × σ

/-- Something that a solver was asked. -/
inductive Call where
  | declare (name : String) (sort : BaseSort)
  | assert (expr : Expr)
  | check (models : Bool)

/-- A solver that keeps what it was asked. -/
structure Recorder where
  answers : Answers Verdict
  calls : List Call := []

namespace Recorder

/-- Keep one more call. -/
def keep (recorder : Recorder) (call : Call) : Recorder :=
  { recorder with calls := recorder.calls ++ [call] }

/-- Keep a check and take the next answer. -/
def answer (recorder : Recorder) (models : Bool) : Findings × Recorder :=
  let (verdict, answers) := recorder.answers.next .unknown
  ({ verdict }, { recorder.keep (.check models) with answers })

instance : Solver Recorder where
  declare recorder name sort := recorder.keep (.declare name sort)
  assert recorder expr := .ok (recorder.keep (.assert expr))
  check := answer

end Recorder

end SatScript
