import SatScript.Proofs.Session.Stepping
import SatScript.Proofs.Term.Names
/-!
# SatScript — a session and its back end know the same names

Against the term back end a session keeps the names twice: the sorts in
its scope, the terms in the back end. Both change with a declaration only
and change alike (`scope_eq_step`), so an expression that the session has
elaborated never meets a name that the back end does not know.
-/

namespace SatScript

namespace Backend

variable {backend : Backend}

@[simp] theorem declared_declare (name : String) (sort : BaseSort) :
    (Solver.declare backend name sort).declared =
      backend.declared.set name (Term.ofDeclaration name sort) := rfl

@[simp] theorem declared_check (models : Bool) :
    (Solver.check backend models).2.declared = backend.declared := by
  show (backend.check models).2.declared = _
  unfold check
  simp only
  split <;> rfl

/-- Starting the back end declares nothing. -/
@[simp] theorem declared_start (library : Library) (timeout : Option Number) :
    (start library timeout).declared = Table.empty := by
  cases timeout <;> rfl

/-- An assertion adds the term of the expression, if it has one, and is refused
for want of one otherwise. -/
theorem assert_eq (expr : Expr) :
    Solver.assert backend expr =
      (Term.ofAssertion backend.declared expr).map fun term =>
        { backend with library := backend.library.keep [.add term] } := by
  show backend.assert expr = _
  unfold assert
  cases Term.ofAssertion backend.declared expr <;> rfl

/-- What is taken is added, and nothing else changes. -/
theorem exists_of_assert {expr : Expr} {backend' : Backend}
    (h : Solver.assert backend expr = .ok backend') :
    ∃ term, Term.ofAssertion backend.declared expr = .ok term ∧
      backend' = { backend with library := backend.library.keep [.add term] } := by
  rw [assert_eq] at h
  cases hterm : Term.ofAssertion backend.declared expr with
  | error fault =>
    rw [hterm] at h
    cases h
  | ok term =>
    rw [hterm] at h
    cases h
    exact ⟨term, rfl, rfl⟩

/-- **An expression that is bound is added, or fails by its operators.** -/
theorem assert_of_bound {expr : Expr} (h : Bound (Term.ofExpr backend.declared expr)) :
    (∃ term, Solver.assert backend expr =
      .ok { backend with library := backend.library.keep [.add term] }) ∨
    ∃ fault, Solver.assert backend expr = .error fault ∧ fault.concern ≠ .binding := by
  have hassertion : Bound (Term.ofAssertion backend.declared expr) :=
    h.bind fun t _ => SortedTerm.bound_asBool "assert" t
  rw [assert_eq]
  cases hterm : Term.ofAssertion backend.declared expr with
  | ok term => exact .inl ⟨term, rfl⟩
  | error fault => exact .inr ⟨fault, rfl, hassertion fault hterm⟩

end Backend

namespace Session

variable {options : Options} {session : Session Backend}

/-- **Names change with declarations only**: a step leaves scope and back end the
names that they have, or it declares one name with one sort on both sides. -/
theorem scope_eq_step (options : Options) (session : Session Backend) (form : Form) :
    ((session.step options form).1.scope = session.scope ∧
      (session.step options form).1.solver.declared = session.solver.declared) ∨
    ∃ name sort, (session.step options form).1.scope = session.scope.define name sort ∧
      (session.step options form).1.solver.declared =
        session.solver.declared.set name (Term.ofDeclaration name sort) := by
  have htakes := takes_step options session form
  generalize (session.step options form).1 = session', (session.step options form).2 = result
    at htakes
  cases htakes with
  | ended | malformed => exact .inl ⟨rfl, rfl⟩
  | ignored | meaningless | refused =>
    exact .inl ⟨scope_record _, congrArg Backend.declared (solver_record _)⟩
  | @declared name sort =>
    refine .inr ⟨name, sort, scope_declare name sort, ?_⟩
    rw [solver_declare, Backend.declared_declare]
  | asserted _ _ _ hasserted =>
    -- the back end that takes an assertion has only its library changed
    obtain ⟨term, -, rfl⟩ := Backend.exists_of_assert hasserted
    exact .inl ⟨scope_record _, rfl⟩
  | checked =>
    refine .inl ⟨scope_check, ?_⟩
    rw [solver_check, Backend.declared_check]
  | exited => exact .inl ⟨rfl, rfl⟩

/-- The sorts of the terms that were declared are the scope of a session. -/
def SortsDeclared (session : Session Backend) : Prop :=
  session.scope = { frame := session.solver.declared.map (·.sort) }

namespace SortsDeclared

theorem new (library : Library) (timeout : Option Number) :
    SortsDeclared { solver := Backend.start library timeout } := by
  rw [SortsDeclared, Backend.declared_start]
  rfl

/-- **Every step keeps scope and back end together**, failing ones too. -/
theorem step (h : SortsDeclared session) (form : Form) :
    SortsDeclared (session.step options form).1 := by
  rcases scope_eq_step options session form with
    ⟨hscope, hdeclared⟩ | ⟨name, sort, hscope, hdeclared⟩
  · rw [SortsDeclared, hscope, hdeclared]
    exact h
  · rw [SortsDeclared, hscope, hdeclared, Table.map_set, h]
    rfl

/-- A name has the sort of its term, and neither without the other. -/
theorem lookup (h : SortsDeclared session) (name : String) :
    session.scope.lookup name = (session.solver.declared.get? name).map (·.sort) := by
  rw [h, ← Table.get?_map]
  cases hsort : (session.solver.declared.map (·.sort)).get? name <;>
    simp [Scope.lookup, Scope.frames, hsort]

/-- The back end knows the names of the scope. -/
theorem knows (h : SortsDeclared session) :
    Term.Knows session.solver.declared session.scope := by
  intro name sort hsort
  rw [h.lookup] at hsort
  obtain ⟨term, hterm, -⟩ := Option.map_eq_some_iff.1 hsort
  exact ⟨term, hterm⟩

end SortsDeclared

/-- **A session and its back end agree on names over whole runs**, failing forms
included: the scope of the session is one frame, of the declared names with the
sorts of their terms. So an expression that the session elaborates is added by
the back end, or refused for an operator, a number of arguments or their sorts;
it misses no name and no binding, unless a list in the form is an atom alone. -/
theorem agrees_with_backend (library : Library) (timeout : Option Number) (options : Options)
    (forms : List Form) :
    let session := steps options { solver := Backend.start library timeout } forms
    session.scope.outer = [] ∧
    (∀ name, session.scope.frame.get? name =
      (session.solver.declared.get? name).map (·.sort)) ∧
    ∀ form body expr, form.NoLoneAtom → Command.ofForm form = .ok (.assert body) →
      (Expr.ofForm options.fractionalNumerals session.scope body).result = .ok expr →
      (∃ term, Solver.assert session.solver expr =
        .ok { session.solver with library := session.solver.library.keep [.add term] }) ∨
      ∃ fault, Solver.assert session.solver expr = .error fault ∧ fault.concern ≠ .binding := by
  intro session
  have hdeclared : SortsDeclared session :=
    steps_induction (.new library timeout) (fun _ form h => h.step form) forms
  refine ⟨congrArg Scope.outer hdeclared, fun name => ?_, ?_⟩
  · rw [← Table.get?_map]
    exact congrArg (fun scope : Scope BaseSort => scope.frame.get? name) hdeclared
  · intro form body expr hlone hcommand helaborated
    obtain ⟨head, start, stop, rest, p, q, rfl, hcases⟩ := Command.cases_of_ofForm hcommand
    obtain ⟨body', rfl, hbody⟩ : ∃ body', rest = [body'] ∧ body = body' := by
      rcases hcases with ⟨-, h⟩ | ⟨-, _, _, _, _, _, -, h⟩ | ⟨-, body', hrest, h⟩ | ⟨-, h⟩ | ⟨-, h⟩
      case inr.inr.inl => exact ⟨body', hrest, Command.assert.inj h⟩
      all_goals cases h
    subst hbody
    exact Backend.assert_of_bound
      (Term.bound_ofForm body hdeclared.knows hlone.items.2.1 helaborated)

/-- After `(declare-fun x () Real)` and `(assert (< x y))`, which fails, the assertion
`(assert (let ((y x)) (< y 1)))` is added. -/
theorem agrees_with_backend_let :
    let forms : List Form :=
      [.list [.atom "declare-fun" 1 12, .atom "x" 13 14, .list [] 15 17, .atom "Real" 18 22] 0 23,
       .list [.atom "assert" 24 30, .list [.atom "<" 32 33, .atom "x" 34 35, .atom "y" 36 37]
        31 38] 23 39]
    let session := steps {} { solver := Backend.start { answers := ⟨[]⟩ } none } forms
    let body : Form := .list [.atom "let" 9 12,
      .list [.list [.atom "y" 15 16, .atom "x" 17 18] 14 19] 13 20,
      .list [.atom "<" 22 23, .atom "y" 24 25, .atom "1" 26 27] 21 28] 8 29
    let form : Form := .list [.atom "assert" 1 7, body] 0 30
    let expr : Expr := .node "let" .bool [.node "y" .real [.leaf "x" .real],
      .node "<" .bool [.leaf "y" .real, .leaf "1" .real]]
    session.scope.outer = [] ∧ session.scope.frame.get? "x" = some .real ∧
      session.scope.frame.get? "y" = none ∧ form.NoLoneAtom ∧
      Command.ofForm form = .ok (.assert body) ∧
      (Expr.ofForm true session.scope body).result = .ok expr ∧
      ∃ term, Solver.assert session.solver expr =
        .ok { session.solver with library := session.solver.library.keep [.add term] } := by
  intro forms session body form expr
  obtain ⟨houter, hsorts, hasserts⟩ := agrees_with_backend { answers := ⟨[]⟩ } none {} forms
  have hlone : form.NoLoneAtom := by
    simp [form, body, Form.NoLoneAtom, Form.NoLoneAtoms]
  have hcommand : Command.ofForm form = .ok (.assert body) := by rfl
  have helaborated : (Expr.ofForm true session.scope body).result = .ok expr := by rfl
  have hadded := (hasserts form body expr hlone hcommand helaborated).resolve_right fun h => by
    obtain ⟨fault, hfault, -⟩ := h
    cases hfault
  exact ⟨houter, (hsorts "x").trans rfl, (hsorts "y").trans rfl, hlone, hcommand, helaborated,
    hadded⟩

end Session

end SatScript
