import SatScript.Proofs.Session.Names
import SatScript.Proofs.Session.Running
import SatScript.Proofs.Term.Unused
/-!
# SatScript — sessions alongside each other

Of two sessions against the term back end one may know a name more than the
other. They stay alongside each other (`step_alongside`): they answer alike,
print the same and ask the library for the same, but for the values in
models, until the first fails because the name is missing. The forms that the
second takes may stand further on in their text, and so do its faults then. A
run of the second never fails for want of the name (`avoids_runFrom`), and
what it comes to is what the run of the first comes to, if that does not
(`runFrom_alongside`).
-/

namespace SatScript

/-! ## Commands further on -/

/-- The command, of a form that stands `n` further on. -/
def Command.shift (n : Nat) : Command → Command
  | .assert body => .assert (body.shift n)
  | command => command

namespace Command

variable {name : String} {n : Nat}

theorem mends_declaration (form : Form) (items : List Form) :
    Mends (Fault.Misses name) (Fault.shift n) ((declaration form items).map (Command.shift n))
      (declaration (form.shift n) (Form.shiftAll n items)) := by
  have hspan := Form.span_shift n form
  match items with
  | [] | [_] | [_, _] | [_, _, _] => exact mends_found hspan rfl Bool.false_ne_true
  | [_, .list _ _ _, _, _] => exact mends_found hspan rfl Bool.false_ne_true
  | [_, .atom _ _ _, .atom _ _ _, _] =>
    simp only [Form.shift, Form.shiftAll, declaration, Form.render_shift]
    exact mends_found hspan rfl Bool.false_ne_true
  | [_, .atom _ _ _, .list (_ :: _) _ _, _] =>
    simp only [Form.shift, Form.shiftAll, declaration, Form.render_shift]
    exact mends_found hspan rfl Bool.false_ne_true
  | [_, .atom _ _ _, .list [] _ _, .list _ _ _] =>
    simp only [Form.shift, Form.shiftAll, declaration, Form.render_shift]
    exact mends_found hspan rfl Bool.false_ne_true
  | [_, .atom _ _ _, .list [] _ _, .atom sort _ _] =>
    simp only [Form.shift, Form.shiftAll, declaration, Form.render_shift]
    cases BaseSort.ofName? sort with
    | none => exact mends_found hspan rfl Bool.false_ne_true
    | some sort => exact .ok _
  | _ :: _ :: _ :: _ :: _ :: _ =>
    simp only [Form.shiftAll, declaration, List.length_cons, Form.length_shiftAll]
    exact mends_found hspan rfl Bool.false_ne_true

theorem mends_assertion (form : Form) (items : List Form) :
    Mends (Fault.Misses name) (Fault.shift n) ((assertion form items).map (Command.shift n))
      (assertion (form.shift n) (Form.shiftAll n items)) := by
  have hspan := Form.span_shift n form
  match items with
  | [] | [_] => exact mends_found hspan rfl Bool.false_ne_true
  | [_, body] => exact .ok _
  | _ :: _ :: _ :: _ =>
    simp only [Form.shiftAll, assertion, List.length_cons, Form.length_shiftAll]
    exact mends_found hspan rfl Bool.false_ne_true

/-- **A form is the same command further on**, and what is wrong with it is never
a name. -/
theorem mends_ofForm (form : Form) :
    Mends (Fault.Misses name) (Fault.shift n) ((ofForm form).map (Command.shift n))
      (ofForm (form.shift n)) := by
  match form with
  | .atom _ _ _ => exact mends_found rfl rfl Bool.false_ne_true
  | .list [] start stop => exact mends_found rfl rfl Bool.false_ne_true
  | .list (.list items start' stop' :: rest) start stop =>
    have hwritten := Form.render_shift n (.list (.list items start' stop' :: rest) start stop)
    simp only [Form.shift, Form.shiftAll, ofForm] at hwritten ⊢
    rw [hwritten]
    exact mends_found rfl rfl Bool.false_ne_true
  | .list (.atom head start' stop' :: rest) start stop =>
    have hdeclaration := @mends_declaration name n (.list (.atom head start' stop' :: rest) start stop)
      (.atom head start' stop' :: rest)
    have hassertion := @mends_assertion name n (.list (.atom head start' stop' :: rest) start stop)
      (.atom head start' stop' :: rest)
    simp only [Form.shift, Form.shiftAll, ofForm] at hdeclaration hassertion ⊢
    split
    · exact .ok _
    split
    · exact hdeclaration
    split
    · exact hassertion
    split
    · exact .ok _
    split
    · exact .ok _
    · exact mends_found rfl rfl Bool.false_ne_true

/-- What is wrong with a command is never that a name is missing. -/
theorem avoids_ofForm (form : Form) : Avoids (Fault.Misses name) (ofForm form) := by
  intro fault hfault hmisses
  have hcommand := isOfCommand_of_ofForm hfault
  unfold Fault.Misses at hmisses
  cases hcause : fault.cause with
  | shape | wrongCount | unknownCommand =>
    rw [hcause] at hmisses
    cases hmisses
  | _ =>
    rw [hcause] at hcommand
    cases hcommand

end Command

/-! ## What the library is asked -/

/-- Whether the library is asked for a value in a model. -/
def LibraryCall.isEval : LibraryCall → Bool
  | .eval _ => true
  | _ => false

/-- What the library was asked, the values in models left out. -/
def Library.demands (library : Library) : List LibraryCall :=
  library.log.filter fun call => !call.isEval

namespace Library

@[simp] theorem answers_keep (library : Library) (calls : List LibraryCall) :
    (library.keep calls).answers = library.answers := rfl

@[simp] theorem demands_keep (library : Library) (calls : List LibraryCall) :
    (library.keep calls).demands =
      library.demands ++ calls.filter fun call => !call.isEval := by
  rw [demands, keep, List.filter_append]
  rfl

end Library

namespace Backend

/-- The answer to a check is the next one, and values are asked for behind it. -/
theorem check_eq (backend : Backend) (models : Bool) :
    (Solver.check backend models).1.verdict =
        Verdict.ofAnswer (backend.library.answers.next Verdict.unknown.text).1 ∧
      (Solver.check backend models).2.library.answers =
        (backend.library.answers.next Verdict.unknown.text).2 ∧
      (Solver.check backend models).2.library.demands =
        backend.library.demands ++ [.check] := by
  have hvalues : (backend.declared.entries.map fun entry => LibraryCall.eval entry.2.term).filter
      (fun call => !call.isEval) = [] := by
    refine List.filter_eq_nil_iff.2 fun call hcall => ?_
    obtain ⟨entry, -, rfl⟩ := List.mem_map.1 hcall
    exact Bool.false_ne_true
  show (backend.check models).1.verdict = _ ∧ (backend.check models).2.library.answers = _ ∧
    (backend.check models).2.library.demands = _
  unfold check
  simp only
  split
  · refine ⟨rfl, rfl, ?_⟩
    rw [Library.demands_keep, hvalues, List.append_nil]
    exact Library.demands_keep backend.library [.check]
  · exact ⟨rfl, rfl, Library.demands_keep backend.library [.check]⟩

/-- An assertion is lowered with one name more as without it. -/
theorem mends_ofAssertion {name : String} {table table' : Table SortedTerm}
    (h : Supplies name table.get? table'.get?) (expr : Expr) :
    Mends (· = .noTerm name) id (Term.ofAssertion table expr) (Term.ofAssertion table' expr) :=
  (Term.mends_ofExpr expr h).bind fun t =>
    .refl (Term.avoids_of_bound (SortedTerm.bound_asBool "assert" t))

end Backend

/-! ## Sessions alongside each other -/

namespace Session

/-- The second session is where the first is, and knows a name that the first may
not know. -/
structure Alongside (name : String) (session session' : Session Backend) : Prop where
  status : session'.status = session.status
  verdicts : session'.verdicts = session.verdicts
  lines : session'.lines = session.lines
  sorts : Supplies name session.scope.lookup session'.scope.lookup
  terms : Supplies name session.solver.declared.get? session'.solver.declared.get?
  answers : session'.solver.library.answers = session.solver.library.answers
  demands : session'.solver.library.demands = session.solver.library.demands

variable {name : String} {options : Options} {session session' : Session Backend}

namespace Alongside

theorem record (h : session.Alongside name session') (options : Options)
    (events events' : List Event) :
    (session.record options events).Alongside name (session'.record options events') where
  status := by rw [status_record, status_record, h.status]
  verdicts := by rw [verdicts_record, verdicts_record, h.verdicts]
  lines := by rw [lines_record, lines_record, h.lines]
  sorts := by rw [scope_record, scope_record]; exact h.sorts
  terms := by rw [solver_record, solver_record]; exact h.terms
  answers := by rw [solver_record, solver_record, h.answers]
  demands := by rw [solver_record, solver_record, h.demands]

theorem declare (h : session.Alongside name session') (key : String) (sort : BaseSort) :
    (session.declare options key sort).Alongside name (session'.declare options key sort) where
  status := by rw [status_declare, status_declare, h.status]
  verdicts := by rw [verdicts_declare, verdicts_declare, h.verdicts]
  lines := by rw [lines_declare, lines_declare, h.lines]
  sorts := by
    rw [scope_declare, scope_declare]
    exact h.sorts.update (fun other => Scope.lookup_define _ key other sort)
      fun other => Scope.lookup_define _ key other sort
  terms := by
    rw [solver_declare, solver_declare, Backend.declared_declare, Backend.declared_declare]
    exact Term.supplies_set key _ h.terms
  answers := by rw [solver_declare, solver_declare]; exact h.answers
  demands := by rw [solver_declare, solver_declare]; exact h.demands

/-- Both sessions get the same verdict, and ask for the values of their models. -/
theorem check (h : session.Alongside name session') :
    (session.check options).Alongside name (session'.check options) := by
  obtain ⟨hverdict, hanswers, hdemands⟩ :=
    Backend.check_eq session.solver options.produceModels
  obtain ⟨hverdict', hanswers', hdemands'⟩ :=
    Backend.check_eq session'.solver options.produceModels
  have hsame : (Solver.check session'.solver options.produceModels).1.verdict =
      (Solver.check session.solver options.produceModels).1.verdict := by
    rw [hverdict, hverdict', h.answers]
  constructor
  · rw [status_check, status_check, h.status]
  · rw [verdicts_check, verdicts_check, h.verdicts, hsame]
  · rw [lines_check, lines_check, h.lines, hsame]
  · rw [scope_check, scope_check]
    exact h.sorts
  · rw [solver_check, solver_check, Backend.declared_check, Backend.declared_check]
    exact h.terms
  · rw [solver_check, solver_check, hanswers, hanswers', h.answers]
  · rw [solver_check, solver_check, hdemands, hdemands', h.demands]

/-- A session that knows the name is alongside itself. -/
theorem self (h : session.Alongside name session') : session'.Alongside name session' where
  status := rfl
  verdicts := rfl
  lines := rfl
  sorts := ⟨h.sorts.supplied, fun _ => .inl rfl⟩
  terms := ⟨h.terms.supplied, fun _ => .inl rfl⟩
  answers := rfl
  demands := rfl

/-- Both sessions add the same term. -/
theorem add (h : session.Alongside name session') (term : Term) :
    Alongside name
      { session with solver := { session.solver with
          library := session.solver.library.keep [.add term] } }
      { session' with solver := { session'.solver with
          library := session'.solver.library.keep [.add term] } } where
  status := h.status
  verdicts := h.verdicts
  lines := h.lines
  sorts := h.sorts
  terms := h.terms
  answers := h.answers
  demands := by
    simp only [Library.demands_keep, h.demands]

end Alongside

/-- The fault of the back end, as a fault of the script. -/
def refusal (fault : BackendFault) : Fault := ⟨.backend fault, none⟩

/-- A refusal is that the name is missing just if there is no term for it. -/
theorem misses_refusal {fault : BackendFault} :
    (refusal fault).Misses name ↔ fault = .noTerm name := by
  cases fault <;> simp [refusal, Fault.Misses, Cause.misses]

/-- What comes of an assertion comes of the elaboration and the lowering. -/
theorem result_assert (session : Session Backend) (body : Form) :
    (session.assert options body).2 =
      (Expr.ofForm options.fractionalNumerals session.scope body).result >>= fun expr =>
        (Term.ofAssertion session.solver.declared expr).mapError refusal >>= fun _ => .ok () := by
  rw [assert]
  simp only [solver_record]
  cases (Expr.ofForm options.fractionalNumerals session.scope body).result with
  | error fault => rfl
  | ok expr =>
    show _ = (Term.ofAssertion session.solver.declared expr).mapError refusal >>= fun _ => .ok ()
    simp only [Backend.assert_eq]
    cases Term.ofAssertion session.solver.declared expr <;> rfl

/-- **An assertion comes to the same in both sessions**, unless it fails in the
first for want of the name. -/
theorem assert_alongside (h : session.Alongside name session') (n : Nat) (body : Form) :
    Mends (Fault.Misses name) (Fault.shift n) (session.assert options body).2
        (session'.assert options (body.shift n)).2 ∧
      (Avoids (Fault.Misses name) (session.assert options body).2 →
        (session.assert options body).1.Alongside name
          (session'.assert options (body.shift n)).1) := by
  have helaborated := @Expr.mends_ofForm name n options.fractionalNumerals body _ _ h.sorts
  have hlowered (expr : Expr) :
      Mends (Fault.Misses name) (Fault.shift n)
        ((Term.ofAssertion session.solver.declared expr).mapError refusal)
        ((Term.ofAssertion session'.solver.declared expr).mapError refusal) :=
    (Backend.mends_ofAssertion h.terms expr).mapError
      (fun _ => misses_refusal) fun _ => rfl
  rw [result_assert, result_assert]
  refine ⟨helaborated.bind fun expr => (hlowered expr).bind fun _ => .ok _, fun havoids => ?_⟩
  have hsame := helaborated.same havoids.of_bind
  simp only [assert, solver_record]
  cases hexpr : (Expr.ofForm options.fractionalNumerals session.scope body).result with
  | error fault =>
    rw [hexpr] at hsame
    simp only [hsame, Except.mapError]
    exact h.record _ _ _
  | ok expr =>
    rw [hexpr] at hsame havoids
    have hterms := (hlowered expr).same (Avoids.of_bind havoids)
    simp only [hsame, Except.mapError, Backend.assert_eq]
    cases hterm : Term.ofAssertion session.solver.declared expr with
    | error fault =>
      rw [hterm] at hterms
      cases hterm' : Term.ofAssertion session'.solver.declared expr with
      | error fault' => exact h.record _ _ _
      | ok term => rw [hterm'] at hterms; cases hterms
    | ok term =>
      rw [hterm] at hterms
      cases hterm' : Term.ofAssertion session'.solver.declared expr with
      | error fault' => rw [hterm'] at hterms; cases hterms
      | ok term' =>
        rw [hterm'] at hterms
        cases hterms
        have hadded := (h.record options
          (Expr.ofForm options.fractionalNumerals session.scope body).events
          (Expr.ofForm options.fractionalNumerals session'.scope (body.shift n)).events).add term
        simp only [solver_record] at hadded
        exact hadded

/-- Every command comes to the same in both sessions, but for the name. -/
theorem perform_alongside (h : session.Alongside name session') (n : Nat) (command : Command) :
    Mends (Fault.Misses name) (Fault.shift n) (session.perform options command).2
        (session'.perform options (command.shift n)).2 ∧
      (Avoids (Fault.Misses name) (session.perform options command).2 →
        (session.perform options command).1.Alongside name
          (session'.perform options (command.shift n)).1) := by
  cases command with
  | ignore _ => exact ⟨.ok (), fun _ => h.record _ _ _⟩
  | declare key sort => exact ⟨.ok (), fun _ => h.declare key sort⟩
  | assert body => exact assert_alongside h n body
  | check => exact ⟨.ok (), fun _ => h.check⟩
  | exit => exact ⟨.ok (), fun _ => { h with status := rfl }⟩

/-- **Taking a form comes to the same in both sessions**, wherever the form
stands, unless it fails in the first for want of the name. -/
theorem step_alongside (h : session.Alongside name session') (n : Nat) (form : Form) :
    Mends (Fault.Misses name) (Fault.shift n) (session.step options form).2
        (session'.step options (form.shift n)).2 ∧
      (Avoids (Fault.Misses name) (session.step options form).2 →
        (session.step options form).1.Alongside name
          (session'.step options (form.shift n)).1) := by
  cases hstatus : session.status with
  | terminated =>
    rw [step_of_takes (.ended hstatus), step_of_takes (.ended (h.status.trans hstatus))]
    exact ⟨.ok _, fun _ => h⟩
  | running =>
    have hstatus' := h.status.trans hstatus
    have hcommand := (@Command.mends_ofForm name n form).same
      ((Avoids.map_iff _).2 (Command.avoids_ofForm form))
    have hfault := @Command.avoids_ofForm name (form.shift n)
    cases hform : Command.ofForm form with
    | error fault =>
      rw [hform] at hcommand
      rw [hcommand] at hfault
      rw [step_of_takes (.malformed hstatus hform), step_of_takes (.malformed hstatus' hcommand)]
      exact ⟨.error rfl (hfault _ rfl), fun _ => h⟩
    | ok command =>
      rw [hform] at hcommand
      obtain ⟨hmends, halongside⟩ := @perform_alongside name options _ _ h n command
      rw [step_of_command hstatus hform, step_of_command hstatus' hcommand]
      refine ⟨⟨(Avoids.map_iff _).2 hmends.avoids, fun havoids => ?_⟩, fun havoids => ?_⟩
      · have hbefore := (Avoids.map_iff _).1 havoids
        rw [hmends.same hbefore, (halongside hbefore).status]
        cases (session.perform options command).2 <;> rfl
      · exact halongside ((Avoids.map_iff _).1 havoids)

end Session

/-! ## Runs -/

/-- The fault of an open list lies further on with the list. -/
theorem Unclosed.fault_shift (n : Nat) (unclosed : Unclosed) :
    (unclosed.shift n).fault = unclosed.fault.shift n := rfl

/-- The longer run comes to what the run alone comes to, behind a form that takes
`n` units: it has taken a form more, its faults lie further on, and the library
may be asked for more values in models. -/
structure Outcome.AlikeBehind (n : Nat) (alone longer : Outcome Backend) : Prop where
  forms : longer.forms = alone.forms + 1
  status : longer.session.status = alone.session.status
  verdicts : longer.session.verdicts = alone.session.verdicts
  lines : longer.session.lines = alone.session.lines
  demands : longer.session.solver.library.demands = alone.session.solver.library.demands
  ending : longer.ending = alone.ending.mapError (Fault.shift n)

namespace Session

variable {name : String} {options : Options} {session session' : Session Backend} {n : Nat}

theorem Alongside.outcome (h : session.Alongside name session') (n forms : Nat)
    (ending : Except Fault Ending) :
    Outcome.AlikeBehind n ⟨session, forms, ending⟩
      ⟨session', forms + 1, ending.mapError (Fault.shift n)⟩ where
  forms := rfl
  status := h.status
  verdicts := h.verdicts
  lines := h.lines
  demands := h.demands
  ending := rfl

/-- **A run in which the name is known does not end for want of it.** -/
theorem avoids_runFrom (h : session.Alongside name session) (cursor : Cursor) (forms : Nat) :
    Avoids (Fault.Misses name) (runFrom options session cursor forms).ending := by
  induction hlength : cursor.rest.length using Nat.strongRecOn
    generalizing session cursor forms with
  | ind length ih =>
    by_cases hrest : cursor.skipBlanks.rest = []
    · rw [runFrom_of_rest_eq_nil _ _ _ hrest]
      exact .ok _
    cases hone : cursor.readOne options.strictLists with
    | error unclosed =>
      rw [runFrom_of_readOne_error _ _ _ hrest hone]
      exact .error Bool.false_ne_true
    | ok reading =>
      rw [runFrom_of_readOne _ _ _ hrest hone]
      obtain ⟨hmends, halongside⟩ := @step_alongside name options _ _
        (h.record options [readingEvent cursor.skipBlanks reading]
          [readingEvent cursor.skipBlanks reading]) 0 reading.form
      rw [Form.shift_zero] at hmends halongside
      have havoids := hmends.avoids
      have hnext := halongside havoids
      rcases hstep : session.take options cursor.skipBlanks reading with ⟨next, fault | _ | _⟩
      · rw [← take, hstep] at havoids
        exact .error (havoids fault rfl)
      · rw [← take, hstep] at hnext
        exact ih _ (hlength ▸ length_next_lt_of_readOne options session hrest hone hstep) hnext _ _
          rfl
      · exact .ok _

/-- **Both runs go alongside each other**, unless the first fails for want of the
name; the second may stand before blanks that the first is behind. -/
theorem runFrom_alongside (h : session.Alongside name session') {cursor cursor' : Cursor}
    (hskip : cursor'.skipBlanks = cursor.skipBlanks.shift n) (forms : Nat)
    (havoids : Avoids (Fault.Misses name) (runFrom options session cursor forms).ending) :
    (runFrom options session cursor forms).AlikeBehind n
      (runFrom options session' cursor' (forms + 1)) := by
  induction hlength : cursor.rest.length using Nat.strongRecOn
    generalizing session session' cursor cursor' forms with
  | ind length ih =>
    have hrest' : cursor'.skipBlanks.rest = cursor.skipBlanks.rest := by rw [hskip]; rfl
    have hone' : cursor'.readOne options.strictLists =
        ((cursor.readOne options.strictLists).map (Reading.shift n)).mapError
          (Unclosed.shift n) := by
      rw [← Cursor.readOne_skipBlanks, hskip, Cursor.readOne_shift, Cursor.readOne_skipBlanks]
    by_cases hrest : cursor.skipBlanks.rest = []
    · rw [runFrom_of_rest_eq_nil _ _ _ hrest,
        runFrom_of_rest_eq_nil _ _ _ (hrest'.trans hrest)]
      exact h.outcome n forms (.ok .endOfInput)
    cases hone : cursor.readOne options.strictLists with
    | error unclosed =>
      rw [hone] at hone'
      rw [runFrom_of_readOne_error _ _ _ hrest hone,
        runFrom_of_readOne_error _ _ _ (hrest' ▸ hrest) hone', Unclosed.fault_shift]
      exact h.outcome n forms (.error unclosed.fault)
    | ok reading =>
      rw [hone] at hone'
      rw [runFrom_of_readOne _ _ _ hrest hone] at havoids ⊢
      rw [runFrom_of_readOne _ _ _ (hrest' ▸ hrest) hone']
      obtain ⟨hmends, halongside⟩ := @step_alongside name options _ _
        (h.record options [readingEvent cursor.skipBlanks reading]
          [readingEvent cursor'.skipBlanks (reading.shift n)]) n reading.form
      rw [← take] at hmends halongside
      change Mends _ _ _ (session'.take options cursor'.skipBlanks (reading.shift n)).2 at hmends
      change _ → Alongside _ _
        (session'.take options cursor'.skipBlanks (reading.shift n)).1 at halongside
      rcases hstep : session.take options cursor.skipBlanks reading with ⟨next, fault | _ | _⟩
      all_goals
        rw [hstep] at hmends halongside havoids
        rcases hstep' : session'.take options cursor'.skipBlanks (reading.shift n) with
          ⟨next', result'⟩
        rw [hstep'] at hmends halongside
      · obtain rfl := hmends.same (.error (havoids fault rfl))
        exact (halongside (.error (havoids fault rfl))).outcome n (forms + 1) (.error fault)
      · obtain rfl := hmends.same (.ok _)
        exact ih _ (hlength ▸ length_next_lt_of_readOne options session hrest hone hstep)
          (halongside (.ok _)) (Cursor.skipBlanks_shift n reading.next) (forms + 1) havoids rfl
      · obtain rfl := hmends.same (.ok _)
        exact (halongside (.ok _)).outcome n (forms + 1) (.ok .exit)

end Session

end SatScript
