import SatScript.Session.Basic
/-!
# SatScript — what a session does with a form

`Session.Takes` lists all that can happen when a session takes a form, and
`takes_step` says that nothing else does, so a property of sessions is
proved by cases on it and never by unfolding `step`. A map of sessions that
goes along with each of these things goes along with a step
(`Commutes.step`). `steps` takes forms one after another, whatever comes of
each; what one step keeps is kept by all of them (`steps_induction`).
-/

namespace SatScript

/-! ## Commands -/

/-- A declaration names a variable and a sort. -/
theorem Command.exists_of_declaration {form head : Form} {rest : List Form} {command : Command}
    (h : declaration form (head :: rest) = .ok command) :
    ∃ name start stop more sort, rest = .atom name start stop :: more ∧
      command = .declare name sort := by
  unfold declaration at h
  split at h
  case h_2 => cases h
  case h_1 name params sort heq =>
    split at h
    case h_1 => cases h
    case h_2 name start stop =>
      split at h
      case h_2 => cases h
      case h_1 =>
        split at h
        case h_1 => cases h
        case h_2 =>
          split at h
          case h_1 => cases h
          case h_2 found _ =>
            have hrest := (List.cons.inj heq).2
            exact ⟨name, start, stop, _, found, hrest, (Except.ok.inj h).symm⟩

/-- An assertion has one form behind its head. -/
theorem Command.exists_of_assertion {form head : Form} {rest : List Form} {command : Command}
    (h : assertion form (head :: rest) = .ok command) :
    ∃ body, rest = [body] ∧ command = .assert body := by
  unfold assertion at h
  split at h
  case h_1 body heq => exact ⟨body, (List.cons.inj heq).2, (Except.ok.inj h).symm⟩
  case h_2 => cases h

/-- The forms that are commands. -/
theorem Command.cases_of_ofForm {form : Form} {command : Command}
    (h : Command.ofForm form = .ok command) :
    ∃ head start stop rest p q, form = .list (.atom head start stop :: rest) p q ∧
      ((isIgnored head = true ∧ command = .ignore head) ∨
        (head = "declare-fun" ∧ ∃ name start' stop' more sort,
          rest = .atom name start' stop' :: more ∧ command = .declare name sort) ∨
        (head = "assert" ∧ ∃ body, rest = [body] ∧ command = .assert body) ∨
        (head = "check-sat" ∧ command = .check) ∨ (head = "exit" ∧ command = .exit)) := by
  match form with
  | .atom _ _ _ => cases h
  | .list [] _ _ => cases h
  | .list (.list _ _ _ :: _) _ _ => cases h
  | .list (.atom head start stop :: rest) p q =>
    refine ⟨head, start, stop, rest, p, q, rfl, ?_⟩
    rw [Command.ofForm] at h
    split at h
    · rename_i hignored
      exact .inl ⟨hignored, (Except.ok.inj h).symm⟩
    split at h
    · rename_i hdeclare
      refine .inr (.inl ⟨hdeclare, ?_⟩)
      exact exists_of_declaration h
    split at h
    · rename_i hassert
      refine .inr (.inr (.inl ⟨hassert, ?_⟩))
      exact exists_of_assertion h
    split at h
    · rename_i hcheck
      exact .inr (.inr (.inr (.inl ⟨hcheck, (Except.ok.inj h).symm⟩)))
    split at h
    · rename_i hexit
      exact .inr (.inr (.inr (.inr ⟨hexit, (Except.ok.inj h).symm⟩)))
    · cases h

/-- Whether this may be wrong with a command: its shape, the number of its parts, or
its name. -/
def Cause.isOfCommand : Cause → Bool
  | .shape _ => true
  | .wrongCount .. => true
  | .unknownCommand _ => true
  | _ => false

/-- **Nothing else is wrong with a command.** -/
theorem Command.isOfCommand_of_ofForm {form : Form} {fault : Fault}
    (h : Command.ofForm form = .error fault) : fault.cause.isOfCommand = true := by
  have hdeclaration {items : List Form} (h : declaration form items = .error fault) :
      fault.cause.isOfCommand = true := by
    unfold declaration at h
    repeat' split at h
    all_goals cases h <;> rfl
  have hassertion {items : List Form} (h : assertion form items = .error fault) :
      fault.cause.isOfCommand = true := by
    unfold assertion at h
    split at h <;> cases h
    rfl
  unfold ofForm at h
  split at h
  · cases h
    rfl
  split at h
  · split at h
    · cases h
    split at h
    · exact hdeclaration h
    split at h
    · exact hassertion h
    split at h
    · cases h
    split at h
    · cases h
    · cases h
      rfl
  · cases h
    rfl

namespace Session

variable {σ : Type} {options : Options} {session : Session σ}

/-! ## Recording -/

@[simp] theorem solver_record (events : List Event) :
    (session.record options events).solver = session.solver := by
  rw [record]
  split <;> rfl

@[simp] theorem scope_record (events : List Event) :
    (session.record options events).scope = session.scope := by
  rw [record]
  split <;> rfl

@[simp] theorem status_record (events : List Event) :
    (session.record options events).status = session.status := by
  rw [record]
  split <;> rfl

@[simp] theorem verdicts_record (events : List Event) :
    (session.record options events).verdicts = session.verdicts := by
  rw [record]
  split <;> rfl

@[simp] theorem lines_record (events : List Event) :
    (session.record options events).lines = session.lines := by
  rw [record]
  split <;> rfl

variable [Solver σ]

/-! ## Declaring -/

@[simp] theorem status_declare (name : String) (sort : BaseSort) :
    (session.declare options name sort).status = session.status :=
  status_record [.declared name sort]

@[simp] theorem solver_declare (name : String) (sort : BaseSort) :
    (session.declare options name sort).solver = Solver.declare session.solver name sort :=
  congrArg (Solver.declare · name sort) (solver_record _)

@[simp] theorem scope_declare (name : String) (sort : BaseSort) :
    (session.declare options name sort).scope = session.scope.define name sort :=
  congrArg (Scope.define · name sort) (scope_record _)

@[simp] theorem verdicts_declare (name : String) (sort : BaseSort) :
    (session.declare options name sort).verdicts = session.verdicts :=
  verdicts_record _

@[simp] theorem lines_declare (name : String) (sort : BaseSort) :
    (session.declare options name sort).lines = session.lines :=
  lines_record _

/-! ## Checking -/

@[simp] theorem status_check : (session.check options).status = session.status :=
  status_record _

@[simp] theorem solver_check :
    (session.check options).solver = (Solver.check session.solver options.produceModels).2 := rfl

@[simp] theorem scope_check : (session.check options).scope = session.scope :=
  scope_record _

@[simp] theorem verdicts_check :
    (session.check options).verdicts = session.verdicts ++
      [(Solver.check session.solver options.produceModels).1.verdict] :=
  congrArg (· ++ [_]) (verdicts_record _)

@[simp] theorem lines_check :
    (session.check options).lines = session.lines ++
      [(Solver.check session.solver options.produceModels).1.verdict.text] :=
  congrArg (· ++ [_]) (lines_record _)

/-! ## One form -/

/-- What can happen when a session takes a form: the session behind it, and the
status or the fault that it answers. -/
inductive Takes (options : Options) (session : Session σ) (form : Form) :
    Session σ → Except Fault Status → Prop
  /-- The session has ended and stays as it is. -/
  | ended : session.status = .terminated →
      Takes options session form session (.ok .terminated)
  /-- The form is no command. -/
  | malformed {fault : Fault} : session.status = .running →
      Command.ofForm form = .error fault →
      Takes options session form session (.error fault)
  /-- The command is ignored. -/
  | ignored {name : String} : session.status = .running →
      Command.ofForm form = .ok (.ignore name) →
      Takes options session form (session.record options [.ignored name]) (.ok .running)
  /-- A variable is declared. -/
  | declared {name : String} {sort : BaseSort} : session.status = .running →
      Command.ofForm form = .ok (.declare name sort) →
      Takes options session form (session.declare options name sort) (.ok .running)
  /-- What is asserted is no expression. -/
  | meaningless {body : Form} {fault : Fault} : session.status = .running →
      Command.ofForm form = .ok (.assert body) →
      (Expr.ofForm options.fractionalNumerals session.scope body).result = .error fault →
      Takes options session form
        (session.record options (Expr.ofForm options.fractionalNumerals session.scope body).events)
        (.error fault)
  /-- The solver refuses the expression. -/
  | refused {body : Form} {expr : Expr} {fault : BackendFault} : session.status = .running →
      Command.ofForm form = .ok (.assert body) →
      (Expr.ofForm options.fractionalNumerals session.scope body).result = .ok expr →
      Solver.assert session.solver expr = .error fault →
      Takes options session form
        (session.record options (Expr.ofForm options.fractionalNumerals session.scope body).events)
        (.error ⟨.backend fault, none⟩)
  /-- The solver takes the expression. -/
  | asserted {body : Form} {expr : Expr} {solver : σ} : session.status = .running →
      Command.ofForm form = .ok (.assert body) →
      (Expr.ofForm options.fractionalNumerals session.scope body).result = .ok expr →
      Solver.assert session.solver expr = .ok solver →
      Takes options session form
        { session.record options
            (Expr.ofForm options.fractionalNumerals session.scope body).events with solver }
        (.ok .running)
  /-- The constraints so far are checked. -/
  | checked : session.status = .running →
      Command.ofForm form = .ok .check →
      Takes options session form (session.check options) (.ok .running)
  /-- The session ends. -/
  | exited : session.status = .running →
      Command.ofForm form = .ok .exit →
      Takes options session form { session with status := .terminated } (.ok .terminated)

/-- A running session carries out a command and then tells its status. -/
theorem step_of_command {form : Form} {command : Command} (hstatus : session.status = .running)
    (hcommand : Command.ofForm form = .ok command) :
    session.step options form =
      ((session.perform options command).1,
        (session.perform options command).2.map fun _ =>
          (session.perform options command).1.status) := by
  rw [step, hstatus]
  simp only [hcommand]
  cases session.perform options command with
  | mk session' result => cases result <;> rfl

/-- **A step is one of the things that can happen.** -/
theorem takes_step (options : Options) (session : Session σ) (form : Form) :
    Takes options session form (session.step options form).1 (session.step options form).2 := by
  cases hstatus : session.status with
  | terminated =>
    rw [step, hstatus]
    exact .ended hstatus
  | running =>
    cases hcommand : Command.ofForm form with
    | error fault =>
      rw [step, hstatus]
      simp only [hcommand]
      exact .malformed hstatus hcommand
    | ok command =>
      rw [step_of_command hstatus hcommand]
      cases command with
      | ignore name =>
        show Takes _ _ _ (session.record _ _) (.ok (session.record _ _).status)
        rw [status_record, hstatus]
        exact .ignored hstatus hcommand
      | declare name sort =>
        show Takes _ _ _ (session.declare _ _ _) (.ok (session.declare _ _ _).status)
        rw [status_declare, hstatus]
        exact .declared hstatus hcommand
      | assert body =>
        simp only [perform, assert]
        cases helaborated :
            (Expr.ofForm options.fractionalNumerals session.scope body).result with
        | error fault => exact .meaningless hstatus hcommand helaborated
        | ok expr =>
          simp only [solver_record]
          cases hasserted : Solver.assert session.solver expr with
          | error fault => exact .refused hstatus hcommand helaborated hasserted
          | ok solver =>
            show Takes _ _ _ { session.record _ _ with solver } (.ok (session.record _ _).status)
            rw [status_record, hstatus]
            exact .asserted hstatus hcommand helaborated hasserted
      | check =>
        show Takes _ _ _ (session.check _) (.ok (session.check _).status)
        rw [status_check, hstatus]
        exact .checked hstatus hcommand
      | exit => exact .exited hstatus hcommand

/-- **What can happen is what the step does**: no two of them can happen to one
form. -/
theorem step_of_takes {session' : Session σ} {form : Form} {result : Except Fault Status}
    (h : Takes options session form session' result) :
    session.step options form = (session', result) := by
  cases h with
  | ended hstatus => rw [step, hstatus]
  | malformed hstatus hcommand =>
    rw [step, hstatus]
    simp only [hcommand]
  | ignored hstatus hcommand =>
    rw [step_of_command hstatus hcommand, ← hstatus]
    exact congrArg (_, Except.ok ·) (status_record _)
  | declared hstatus hcommand =>
    rw [step_of_command hstatus hcommand, ← hstatus]
    exact congrArg (_, Except.ok ·) (status_declare _ _)
  | meaningless hstatus hcommand helaborated =>
    rw [step_of_command hstatus hcommand]
    simp only [perform, assert, helaborated, Except.map]
  | refused hstatus hcommand helaborated hasserted =>
    rw [step_of_command hstatus hcommand]
    simp only [perform, assert, helaborated, solver_record, hasserted, Except.map]
  | asserted hstatus hcommand helaborated hasserted =>
    rw [step_of_command hstatus hcommand]
    simp only [perform, assert, helaborated, solver_record, hasserted, Except.map,
      status_record, hstatus]
  | checked hstatus hcommand =>
    rw [step_of_command hstatus hcommand, ← hstatus]
    exact congrArg (_, Except.ok ·) status_check
  | exited hstatus hcommand => rw [step_of_command hstatus hcommand]; rfl

/-- A step that does not fail tells the status of the session behind it. -/
theorem status_of_step {session' : Session σ} {form : Form} {status : Status}
    (h : session.step options form = (session', .ok status)) : session'.status = status := by
  have htakes := takes_step options session form
  rw [h] at htakes
  cases htakes with
  | ended hstatus => exact hstatus
  | ignored hstatus => exact (status_record _).trans hstatus
  | declared hstatus => exact (status_declare _ _).trans hstatus
  | asserted hstatus => exact (status_record _).trans hstatus
  | checked hstatus => exact status_check.trans hstatus
  | exited => rfl

/-! ## Sessions that take forms alike -/

/-- A map of sessions that goes along with all that a session does with commands,
whatever the solvers and the options of both are. -/
structure Commutes {τ : Type} [Solver τ] (options options' : Options)
    (map : Session σ → Session τ) : Prop where
  fractional : options'.fractionalNumerals = options.fractionalNumerals
  status (session : Session σ) : (map session).status = session.status
  scope (session : Session σ) : (map session).scope = session.scope
  record (session : Session σ) (events : List Event) :
    map (session.record options events) = (map session).record options' events
  declare (session : Session σ) (name : String) (sort : BaseSort) :
    map (session.declare options name sort) = (map session).declare options' name sort
  check (session : Session σ) : map (session.check options) = (map session).check options'
  refuse {session : Session σ} {expr : Expr} {fault : BackendFault} :
    Solver.assert session.solver expr = .error fault →
    Solver.assert (map session).solver expr = .error fault
  assert {session : Session σ} {expr : Expr} {solver : σ} (events : List Event) :
    Solver.assert session.solver expr = .ok solver →
    ∃ solver', Solver.assert (map session).solver expr = .ok solver' ∧
      map { session.record options events with solver } =
        { (map session).record options' events with solver := solver' }
  exit (session : Session σ) :
    map { session with status := .terminated } = { map session with status := .terminated }

/-- **Such a map goes along with a step**: it is the same to take a form before it
and behind it. -/
theorem Commutes.step {τ : Type} [Solver τ] {options options' : Options}
    {map : Session σ → Session τ} (h : Commutes options options' map) (session : Session σ)
    (form : Form) :
    (map session).step options' form =
      (map (session.step options form).1, (session.step options form).2) := by
  apply step_of_takes
  have htakes := takes_step options session form
  have hstatus := h.status session
  have hscope := h.scope session
  generalize (session.step options form).1 = session', (session.step options form).2 = result
    at htakes
  cases htakes with
  | ended hended => exact .ended (hstatus.trans hended)
  | malformed hrunning hcommand => exact .malformed (hstatus.trans hrunning) hcommand
  | ignored hrunning hcommand =>
    rw [h.record]
    exact .ignored (hstatus.trans hrunning) hcommand
  | declared hrunning hcommand =>
    rw [h.declare]
    exact .declared (hstatus.trans hrunning) hcommand
  | meaningless hrunning hcommand helaborated =>
    rw [h.record]
    rw [← h.fractional, ← hscope] at helaborated ⊢
    exact .meaningless (hstatus.trans hrunning) hcommand helaborated
  | refused hrunning hcommand helaborated hrefused =>
    rw [h.record]
    rw [← h.fractional, ← hscope] at helaborated ⊢
    exact .refused (hstatus.trans hrunning) hcommand helaborated (h.refuse hrefused)
  | asserted hrunning hcommand helaborated hasserted =>
    obtain ⟨solver', hasserted', hmap⟩ := h.assert _ hasserted
    rw [hmap]
    rw [← h.fractional, ← hscope] at helaborated ⊢
    exact .asserted (hstatus.trans hrunning) hcommand helaborated hasserted'
  | checked hrunning hcommand =>
    rw [h.check]
    exact .checked (hstatus.trans hrunning) hcommand
  | exited hrunning hcommand =>
    rw [h.exit]
    exact .exited (hstatus.trans hrunning) hcommand

/-! ## Forms one after another -/

/-- The session behind forms that it takes one after another, going on behind a
fault. -/
def steps (options : Options) (session : Session σ) : List Form → Session σ
  | [] => session
  | form :: forms => steps options (session.step options form).1 forms

/-- What one step keeps is kept by all of them. -/
theorem steps_induction {property : Session σ → Prop} (hsession : property session)
    (hstep : ∀ session form, property session → property (session.step options form).1)
    (forms : List Form) : property (steps options session forms) := by
  induction forms generalizing session with
  | nil => exact hsession
  | cons form forms ih => exact ih (hstep session form hsession)

end Session

end SatScript
