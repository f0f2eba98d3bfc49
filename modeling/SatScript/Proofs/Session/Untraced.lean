import SatScript.Proofs.Session.Script
/-!
# SatScript — a run does not depend on its trace

Whoever listens to a trace is told of events and answers nothing, so all that a
run knows of a listener is whether there is one. A session takes a form in the
same way if there is none (`step_untraced`), and a run comes to the same session
but for the trace, counts the same forms and ends in the same way
(`run_untraced`).
-/

namespace SatScript

/-- The options without a trace. -/
def Options.untraced (options : Options) : Options := { options with tracing := false }

namespace Session

variable {σ : Type} {options : Options} {session : Session σ}

/-- Nothing is recorded without a trace. -/
theorem record_untraced (events : List Event) :
    session.fresh.record options.untraced events = (session.record options events).fresh :=
  (fresh_record events).symm

variable [Solver σ]

/-- What a session does it does without a trace. -/
theorem commutes_fresh : Commutes options options.untraced (fresh (σ := σ)) where
  fractional := rfl
  status _ := rfl
  scope _ := rfl
  record session events := (record_untraced events).symm
  declare session name sort := by
    simp only [declare, record_untraced]
    simp only [fresh, solver_record, scope_record]
  check session := by
    simp only [check, record_untraced]
    simp only [fresh, verdicts_record, lines_record]
    rfl
  refuse := id
  assert events hasserted := by
    refine ⟨_, hasserted, ?_⟩
    rw [record_untraced]
    rfl
  exit _ := rfl

/-- **A step goes the same without a trace.** -/
theorem step_untraced (options : Options) (session : Session σ) (form : Form) :
    session.fresh.step options.untraced form =
      ((session.step options form).1.fresh, (session.step options form).2) :=
  commutes_fresh.step session form

/-- A form that is read is taken in the same way. -/
theorem take_untraced (options : Options) (session : Session σ) (cursor : Cursor)
    (reading : Reading) :
    session.fresh.take options.untraced cursor reading =
      ((session.take options cursor reading).1.fresh,
        (session.take options cursor reading).2) := by
  rw [take, take, record_untraced, step_untraced]

/-- **A run goes the same from any position.** -/
theorem runFrom_untraced (options : Options) (session : Session σ) (cursor : Cursor)
    (forms : Nat) :
    runFrom options.untraced session.fresh cursor forms =
      (runFrom options session cursor forms).fresh := by
  induction hlength : cursor.rest.length using Nat.strongRecOn
    generalizing session cursor forms with
  | ind length ih =>
    by_cases hrest : cursor.skipBlanks.rest = []
    · rw [runFrom_of_rest_eq_nil _ _ _ hrest, runFrom_of_rest_eq_nil _ _ _ hrest]
      rfl
    cases hone : cursor.readOne options.strictLists with
    | error unclosed =>
      rw [runFrom_of_readOne_error _ _ _ hrest hone,
        runFrom_of_readOne_error options.untraced _ _ hrest hone]
      rfl
    | ok reading =>
      rw [runFrom_of_readOne _ _ _ hrest hone, runFrom_of_readOne options.untraced _ _ hrest hone,
        take_untraced]
      rcases htake : session.take options cursor.skipBlanks reading with ⟨next, fault | _ | _⟩
      · rfl
      · exact ih _ (hlength ▸ length_next_lt_of_readOne options session hrest hone htake) next
          reading.next (forms + 1) rfl
      · rfl

/-- **A run without a trace is the run without its trace**, and nothing else is
different. -/
theorem run_untraced (options : Options) (solver : σ) (script : List Char) :
    run options.untraced solver script = (run options solver script).fresh :=
  runFrom_untraced options { solver } (Cursor.ofText (Text.withoutComments script)) 0

end Session

end SatScript
