import SatScript.Command
import SatScript.Expr.Elaboration
import SatScript.Solver
/-!
# SatScript — sessions

A session takes commands one after another, against a solver. It holds
the sorts of the declared variables, the verdicts so far with the lines
printed for them, and the trace. A form that is at fault changes nothing
but the trace, and the session goes on with the next form. After `exit`
a session takes nothing more.
-/

namespace SatScript

/-- How a script is to be read and run. -/
structure Options where
  strictLists : Bool := false
  fractionalNumerals : Bool := true
  produceModels : Bool := false
  tracing : Bool := true
deriving DecidableEq

/-- Whether a session still takes commands. -/
inductive Status where
  | running
  | terminated
deriving DecidableEq

/-- A run of commands against a solver. -/
structure Session (σ : Type) where
  solver : σ
  scope : Scope BaseSort := Scope.empty
  status : Status := .running
  verdicts : List Verdict := []
  lines : List String := []
  trace : List Event := []

namespace Session

variable {σ : Type}

/-- Put events into the trace, if there is to be one. -/
def record (options : Options) (session : Session σ) (events : List Event) : Session σ :=
  if options.tracing then { session with trace := session.trace ++ events } else session

/-- Declare a variable: the scope gives its name the sort from now on. -/
def declare [Solver σ] (options : Options) (session : Session σ) (name : String)
    (sort : BaseSort) : Session σ :=
  let session := session.record options [.declared name sort]
  { session with
    scope := session.scope.define name sort
    solver := Solver.declare session.solver name sort }

/-- Assert a form: it is elaborated and handed to the solver. -/
def assert [Solver σ] (options : Options) (session : Session σ) (body : Form) :
    Session σ × Except Fault Unit :=
  let traced := Expr.ofForm options.fractionalNumerals session.scope body
  let session := session.record options traced.events
  match traced.result with
  | .error fault => (session, .error fault)
  | .ok expr =>
    match Solver.assert session.solver expr with
    | .error fault => (session, .error ⟨.backend fault, none⟩)
    | .ok solver => ({ session with solver }, .ok ())

/-- Check the constraints so far and print the verdict. -/
def check [Solver σ] (options : Options) (session : Session σ) : Session σ :=
  let (findings, solver) := Solver.check session.solver options.produceModels
  let session := session.record options [.decided findings.verdict]
  { session with
    solver
    verdicts := session.verdicts ++ [findings.verdict]
    lines := session.lines ++ [findings.verdict.text] }

/-- Carry out a command. -/
def perform [Solver σ] (options : Options) (session : Session σ) :
    Command → Session σ × Except Fault Unit
  | .ignore name => (session.record options [.ignored name], .ok ())
  | .declare name sort => (session.declare options name sort, .ok ())
  | .assert body => session.assert options body
  | .check => (session.check options, .ok ())
  | .exit => ({ session with status := .terminated }, .ok ())

/-- Take one form: carry out the command that it is. -/
def step [Solver σ] (options : Options) (session : Session σ) (form : Form) :
    Session σ × Except Fault Status :=
  match session.status with
  | .terminated => (session, .ok .terminated)
  | .running =>
    match Command.ofForm form with
    | .error fault => (session, .error fault)
    | .ok command =>
      match session.perform options command with
      | (session, .error fault) => (session, .error fault)
      | (session, .ok ()) => (session, .ok session.status)

/-- **A session goes on only behind a list**: an atom is no command. -/
theorem ne_atom_of_step [Solver σ] {options : Options} {session session' : Session σ}
    {form : Form} (h : session.step options form = (session', .ok .running))
    (text : String) (start stop : Nat) : form ≠ .atom text start stop := by
  rintro rfl
  unfold step at h
  split at h
  · cases h
  · obtain ⟨fault, hf⟩ := Command.ofForm_atom text start stop
    rw [hf] at h
    cases h

end Session

end SatScript
