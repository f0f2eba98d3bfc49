import SatScript.Proofs.Session.Stepping
/-!
# SatScript — a session and what its solver was asked

An `Observed` solver keeps the calls that it took, with what it found.
Nobody notices that it is observed (`forget_steps`), and everything else
that a session holds can be read off the calls: the scope is what was
declared, the verdicts are what the checks found, the lines are the
verdicts (`Faithful`). That is kept by every step, whatever forms come and
whichever of them fail.
-/

namespace SatScript

/-! ## Calls and answers -/

/-- A call that a solver took, and what it found if it was a check. -/
inductive Exchange where
  | declared (name : String) (sort : BaseSort)
  | asserted (expr : Expr)
  | checked (models : Bool) (findings : Findings)

namespace Exchange

/-- The call by itself. -/
def call : Exchange → Call
  | .declared name sort => .declare name sort
  | .asserted expr => .assert expr
  | .checked models _ => .check models

/-- The declaration that the call is, if it is one. -/
def declaration? : Exchange → Option (String × BaseSort)
  | .declared name sort => some (name, sort)
  | .asserted _ => none
  | .checked _ _ => none

/-- The verdict that the call brought, if it is a check. -/
def verdict? : Exchange → Option Verdict
  | .declared _ _ => none
  | .asserted _ => none
  | .checked _ findings => some findings.verdict

end Exchange

/-- What becomes of a solver through calls that it takes one after another, with
the answers that it gives. -/
inductive Conversation {σ : Type} [Solver σ] (first : σ) : List Exchange → σ → Prop
  | silent : Conversation first [] first
  | declared {history : List Exchange} {solver : σ} (name : String) (sort : BaseSort) :
      Conversation first history solver →
      Conversation first (history ++ [.declared name sort]) (Solver.declare solver name sort)
  | asserted {history : List Exchange} {solver solver' : σ} {expr : Expr} :
      Conversation first history solver → Solver.assert solver expr = .ok solver' →
      Conversation first (history ++ [.asserted expr]) solver'
  | checked {history : List Exchange} {solver : σ} (models : Bool) :
      Conversation first history solver →
      Conversation first (history ++ [.checked models (Solver.check solver models).1])
        (Solver.check solver models).2

/-! ## Observed solvers -/

/-- A solver, and the calls that it took so far. -/
structure Observed (σ : Type) where
  solver : σ
  history : List Exchange := []

namespace Observed

variable {σ : Type}

/-- What was declared, in order. -/
def declarations (observed : Observed σ) : List (String × BaseSort) :=
  observed.history.filterMap Exchange.declaration?

/-- The verdicts that the checks brought, in order. -/
def verdicts (observed : Observed σ) : List Verdict :=
  observed.history.filterMap Exchange.verdict?

variable [Solver σ]

/-- An assertion that is refused leaves no mark. -/
instance : Solver (Observed σ) where
  declare observed name sort :=
    ⟨Solver.declare observed.solver name sort, observed.history ++ [.declared name sort]⟩
  assert observed expr :=
    (Solver.assert observed.solver expr).map fun solver =>
      ⟨solver, observed.history ++ [.asserted expr]⟩
  check observed models :=
    let findings := (Solver.check observed.solver models).1
    (findings, ⟨(Solver.check observed.solver models).2,
      observed.history ++ [.checked models findings]⟩)

@[simp] theorem declarations_declare (observed : Observed σ) (name : String) (sort : BaseSort) :
    (Solver.declare observed name sort).declarations = observed.declarations ++ [(name, sort)] :=
  List.filterMap_append

@[simp] theorem verdicts_declare (observed : Observed σ) (name : String) (sort : BaseSort) :
    (Solver.declare observed name sort).verdicts = observed.verdicts := by
  refine List.filterMap_append.trans ?_
  exact List.append_nil _

@[simp] theorem declarations_check (observed : Observed σ) (models : Bool) :
    (Solver.check observed models).2.declarations = observed.declarations := by
  refine List.filterMap_append.trans ?_
  exact List.append_nil _

@[simp] theorem verdicts_check (observed : Observed σ) (models : Bool) :
    (Solver.check observed models).2.verdicts =
      observed.verdicts ++ [(Solver.check observed models).1.verdict] :=
  List.filterMap_append

/-- An observed solver takes what the solver takes, and keeps it. -/
theorem of_assert_eq_ok {observed observed' : Observed σ} {expr : Expr}
    (h : Solver.assert observed expr = .ok observed') :
    Solver.assert observed.solver expr = .ok observed'.solver ∧
      observed'.history = observed.history ++ [.asserted expr] := by
  change (Solver.assert observed.solver expr).map _ = _ at h
  cases hasserted : Solver.assert observed.solver expr with
  | error fault => rw [hasserted] at h; cases h
  | ok solver =>
    rw [hasserted] at h
    cases h
    exact ⟨rfl, rfl⟩

/-- An observed solver refuses what the solver refuses. -/
theorem of_assert_eq_error {observed : Observed σ} {expr : Expr} {fault : BackendFault}
    (h : Solver.assert observed expr = .error fault) :
    Solver.assert observed.solver expr = .error fault := by
  change (Solver.assert observed.solver expr).map _ = _ at h
  cases hasserted : Solver.assert observed.solver expr with
  | error fault' => rw [hasserted] at h; cases h; rfl
  | ok solver => rw [hasserted] at h; cases h

end Observed

namespace Session

variable {σ : Type} {options : Options}

/-! ## Observing changes nothing -/

/-- The session with its solver unobserved. -/
def forget (session : Session (Observed σ)) : Session σ where
  solver := session.solver.solver
  scope := session.scope
  status := session.status
  verdicts := session.verdicts
  lines := session.lines
  trace := session.trace

theorem forget_record (options : Options) (session : Session (Observed σ)) (events : List Event) :
    (session.record options events).forget = session.forget.record options events := by
  rw [record, record]
  split <;> rfl

variable [Solver σ]

theorem forget_declare (session : Session (Observed σ)) (name : String) (sort : BaseSort) :
    (session.declare options name sort).forget = session.forget.declare options name sort := by
  have hrecord := forget_record options session [.declared name sort]
  simp only [declare, ← hrecord]
  rfl

theorem forget_check (session : Session (Observed σ)) :
    (session.check options).forget = session.forget.check options := by
  have hrecord := forget_record options session
    [.decided (Solver.check session.solver.solver options.produceModels).1.verdict]
  simp only [check]
  rw [show (session.forget.solver) = session.solver.solver from rfl, ← hrecord]
  rfl

/-- What a session does it does with its solver observed. -/
theorem commutes_forget : Commutes options options (forget (σ := σ)) where
  fractional := rfl
  status _ := rfl
  scope _ := rfl
  record := forget_record options
  declare := forget_declare
  check := forget_check
  refuse := Observed.of_assert_eq_error
  assert {session _ _} events hasserted := by
    refine ⟨_, (Observed.of_assert_eq_ok hasserted).1, ?_⟩
    rw [← forget_record]
    rfl
  exit _ := rfl

/-- **A step goes the same with the solver observed.** -/
theorem step_forget (session : Session (Observed σ)) (form : Form) :
    session.forget.step options form =
      ((session.step options form).1.forget, (session.step options form).2) :=
  commutes_forget.step session form

/-- **So do all the steps.** -/
theorem steps_forget (session : Session (Observed σ)) (forms : List Form) :
    steps options session.forget forms = (steps options session forms).forget := by
  induction forms generalizing session with
  | nil => rfl
  | cons form forms ih => rw [steps, steps, step_forget, ih]

/-! ## What a session holds is what its solver was asked -/

/-- The session agrees with the calls that its solver took since it was `first`. -/
structure Faithful (first : σ) (session : Session (Observed σ)) : Prop where
  /-- The calls were made, and answered, as they are kept. -/
  conversation : Conversation first session.solver.history session.solver.solver
  /-- The scope is one frame, of what was declared. -/
  scope : session.scope = { frame := Table.ofList session.solver.declarations }
  /-- The verdicts are those of the checks. -/
  verdicts : session.verdicts = session.solver.verdicts
  /-- The lines tell the verdicts. -/
  lines : session.lines = session.verdicts.map Verdict.text

namespace Faithful

variable {first : σ} {session : Session (Observed σ)}

/-- Nothing has been asked of the solver of a new session. -/
theorem new : Faithful first { solver := ⟨first, []⟩ } := ⟨.silent, rfl, rfl, rfl⟩

/-- Only the trace and the status are not read off the calls. -/
theorem congr {session' : Session (Observed σ)} (h : Faithful first session)
    (hsolver : session'.solver = session.solver) (hscope : session'.scope = session.scope)
    (hverdicts : session'.verdicts = session.verdicts) (hlines : session'.lines = session.lines) :
    Faithful first session' where
  conversation := by rw [hsolver]; exact h.conversation
  scope := by rw [hscope, hsolver]; exact h.scope
  verdicts := by rw [hverdicts, hsolver]; exact h.verdicts
  lines := by rw [hlines, hverdicts]; exact h.lines

theorem record (h : Faithful first session) (events : List Event) :
    Faithful first (session.record options events) :=
  h.congr (solver_record _) (scope_record _) (verdicts_record _) (lines_record _)

/-- A declaration reaches the scope and the solver alike. -/
theorem declare (h : Faithful first session) (name : String) (sort : BaseSort) :
    Faithful first (session.declare options name sort) where
  conversation := by
    rw [solver_declare]
    exact .declared name sort h.conversation
  scope := by
    rw [scope_declare, solver_declare, Observed.declarations_declare, Table.ofList,
      Table.setAll_append, h.scope]
    rfl
  verdicts := by rw [verdicts_declare, solver_declare, Observed.verdicts_declare, h.verdicts]
  lines := by rw [lines_declare, verdicts_declare, h.lines]

/-- An assertion that the solver takes changes nothing else. -/
theorem assert {solver : Observed σ} {expr : Expr} (h : Faithful first session)
    (hasserted : Solver.assert session.solver expr = .ok solver) :
    Faithful first { session with solver } := by
  obtain ⟨hsolver, hhistory⟩ := Observed.of_assert_eq_ok hasserted
  have hdeclarations : solver.declarations = session.solver.declarations := by
    rw [Observed.declarations, hhistory, List.filterMap_append]
    exact List.append_nil _
  have hverdicts : solver.verdicts = session.solver.verdicts := by
    rw [Observed.verdicts, hhistory, List.filterMap_append]
    exact List.append_nil _
  refine ⟨?_, ?_, ?_, h.lines⟩
  · show Conversation first solver.history solver.solver
    rw [hhistory]
    exact .asserted h.conversation hsolver
  · show session.scope = { frame := Table.ofList solver.declarations }
    rw [hdeclarations, h.scope]
  · show session.verdicts = solver.verdicts
    rw [hverdicts, h.verdicts]

/-- A check prints the verdict that it brings. -/
theorem check (h : Faithful first session) : Faithful first (session.check options) where
  conversation := .checked options.produceModels h.conversation
  scope := by rw [scope_check, solver_check, Observed.declarations_check, h.scope]
  verdicts := by rw [verdicts_check, solver_check, Observed.verdicts_check, h.verdicts]
  lines := by rw [lines_check, verdicts_check, List.map_append, h.lines]; rfl

/-- **A session that takes a form goes on agreeing with the calls.** -/
theorem step (h : Faithful first session) (form : Form) :
    Faithful first (session.step options form).1 := by
  have htakes := takes_step options session form
  generalize (session.step options form).1 = session', (session.step options form).2 = result
    at htakes
  cases htakes with
  | ended | malformed => exact h
  | ignored => exact h.record _
  | declared => exact h.declare _ _
  | meaningless => exact h.record _
  | refused => exact h.record _
  | @asserted _ expr _ _ _ _ hasserted =>
    rw [← solver_record] at hasserted
    exact (h.record _).assert hasserted
  | checked => exact h.check
  | exited => exact h.congr rfl rfl rfl rfl

end Faithful

/-! ## The call that a form makes -/

/-- The call that a session makes for a form. What is asserted is handed on as
the expression that it is in the scope of the session. -/
def call? (options : Options) (session : Session σ) (form : Form) : Option Call :=
  match session.status, Command.ofForm form with
  | .running, .ok (.declare name sort) => some (.declare name sort)
  | .running, .ok (.assert body) =>
    match (Expr.ofForm options.fractionalNumerals session.scope body).result with
    | .ok expr => some (.assert expr)
    | .error _ => none
  | .running, .ok .check => some (.check options.produceModels)
  | _, _ => none

/-- **A step makes the call of its form, unless it fails**, and no other. -/
theorem calls_step (session : Session (Observed σ)) (form : Form) :
    ∃ made : List Exchange,
      (session.step options form).1.solver.history = session.solver.history ++ made ∧
      made.map Exchange.call =
        match (session.step options form).2 with
        | .ok _ => (session.call? options form).toList
        | .error _ => [] := by
  have htakes := takes_step options session form
  generalize (session.step options form).1 = session', (session.step options form).2 = result
    at htakes
  cases htakes with
  | ended hstatus => exact ⟨[], (List.append_nil _).symm, by simp [call?, hstatus]⟩
  | malformed => exact ⟨[], (List.append_nil _).symm, rfl⟩
  | ignored hstatus hcommand =>
    exact ⟨[], by rw [solver_record, List.append_nil], by simp [call?, hstatus, hcommand]⟩
  | @declared name sort hstatus hcommand =>
    refine ⟨[.declared name sort], ?_, by simp [call?, hstatus, hcommand, Exchange.call]⟩
    rw [solver_declare]
    rfl
  | meaningless | refused => exact ⟨[], by rw [solver_record, List.append_nil], rfl⟩
  | @asserted body expr solver hstatus hcommand helaborated hasserted =>
    exact ⟨[.asserted expr], (Observed.of_assert_eq_ok hasserted).2,
      by simp [call?, hstatus, hcommand, helaborated, Exchange.call]⟩
  | checked hstatus hcommand =>
    exact ⟨[.checked _ _], rfl, by simp [call?, hstatus, hcommand, Exchange.call]⟩
  | exited hstatus hcommand =>
    exact ⟨[], (List.append_nil _).symm, by simp [call?, hstatus, hcommand]⟩

/-- **A form that is at fault changes nothing but the trace.** -/
theorem eq_of_step_eq_error {session session' : Session σ} {form : Form} {fault : Fault}
    (h : session.step options form = (session', .error fault)) :
    session' = { session with trace := session'.trace } := by
  have hrecord (events : List Event) :
      session.record options events =
        { session with trace := (session.record options events).trace } := by
    rw [record]
    split <;> rfl
  have htakes := takes_step options session form
  rw [h] at htakes
  cases htakes with
  | malformed => rfl
  | meaningless | refused => exact hrecord _

/-- A session that is over stays as it is, whatever comes. -/
theorem steps_of_terminated {session : Session σ} (hstatus : session.status = .terminated)
    (forms : List Form) : steps options session forms = session := by
  induction forms with
  | nil => rfl
  | cons form forms ih => rw [steps, step_of_takes (.ended hstatus), ih]

/-- What a session tells of an assertion that the solver took or refused. -/
def telling : Except BackendFault σ → Except Fault Status
  | .ok _ => .ok .running
  | .error fault => .error ⟨.backend fault, none⟩

/-- **The solver is asked about the expression that is meant, once**: what is
asserted is read in the scope of the moment, and the form fails just if the
solver refuses it. -/
theorem step_of_call_assert {session : Session σ} {form : Form} {expr : Expr}
    (h : session.call? options form = some (.assert expr)) :
    ∃ body, Command.ofForm form = .ok (.assert body) ∧
      (Expr.ofForm options.fractionalNumerals session.scope body).result = .ok expr ∧
      (session.step options form).2 = telling (Solver.assert session.solver expr) := by
  unfold call? at h
  split at h
  case h_2 body hstatus hcommand =>
    split at h
    case h_2 => cases h
    case h_1 expr' helaborated =>
      cases h
      refine ⟨body, hcommand, helaborated, ?_⟩
      cases hasserted : Solver.assert session.solver expr with
      | ok solver => rw [step_of_takes (.asserted hstatus hcommand helaborated hasserted)]; rfl
      | error fault => rw [step_of_takes (.refused hstatus hcommand helaborated hasserted)]; rfl
  all_goals cases h

/-- **What a session holds is what its solver was asked**, whatever forms came
and whichever of them failed: the scope is one frame that gives each declared
name the sort of its last declaration, the verdicts are those of the checks and
the lines tell them. A form at fault leaves all of that alone, any other form
makes its one call or none, and nothing happens to a session that is over. -/
theorem agrees_with_calls (options : Options) (first : σ) (forms : List Form) :
    let session := steps options { solver := (⟨first, []⟩ : Observed σ) } forms
    session.forget = steps options { solver := first } forms ∧
    Conversation first session.solver.history session.solver.solver ∧
    session.scope.outer = [] ∧
    (∀ name, session.scope.frame.get? name =
      session.solver.declarations.reverse.lookup name) ∧
    session.verdicts = session.solver.verdicts ∧
    session.lines = session.verdicts.map Verdict.text ∧
    ∀ form,
      (∀ fault, (session.step options form).2 = .error fault →
        (session.step options form).1 =
          { session with trace := (session.step options form).1.trace }) ∧
      (∃ made : List Exchange,
        (session.step options form).1.solver.history = session.solver.history ++ made ∧
        made.map Exchange.call =
          match (session.step options form).2 with
          | .ok _ => (session.call? options form).toList
          | .error _ => []) ∧
      (∀ expr, session.call? options form = some (.assert expr) →
        ∃ body, Command.ofForm form = .ok (.assert body) ∧
          (Expr.ofForm options.fractionalNumerals session.scope body).result = .ok expr ∧
          (session.step options form).2 = telling (Solver.assert session.solver expr)) ∧
      (session.status = .terminated →
        session.step options form = (session, .ok .terminated) ∧
        ∀ later, steps options session later = session) := by
  intro session
  have hfaithful : Faithful first session :=
    steps_induction .new (fun _ form h => h.step form) forms
  refine ⟨(steps_forget _ forms).symm, hfaithful.conversation, ?_, fun name => ?_,
    hfaithful.verdicts, hfaithful.lines, fun form => ⟨fun fault hfault => ?_,
      calls_step session form, fun expr => step_of_call_assert, fun hstatus => ?_⟩⟩
  · rw [hfaithful.scope]
  · rw [hfaithful.scope]
    exact Table.get?_ofList _ name
  · exact eq_of_step_eq_error (Prod.ext rfl hfault)
  · exact ⟨step_of_takes (.ended hstatus), steps_of_terminated hstatus⟩

end Session

end SatScript
