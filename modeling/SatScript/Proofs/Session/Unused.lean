import SatScript.Proofs.Session.Executed
import SatScript.Proofs.Text.Comment
/-!
# SatScript — a declaration in front of a script

With a declaration in front of it a script runs as it runs alone, a form
later, unless alone it fails because the name is missing
(`run_behind_declaration`). Where the name is no argument in what is
asserted, only an operator can be at fault that stands in a list alone: the
elaboration takes it for an operator without arguments, and the back end for
a variable. So such a script does depend on a declaration that nothing seems
to refer to (`run_behind_declaration_bare`).
-/

namespace SatScript

/-! ## The declaration -/

/-- A declaration, with a blank behind it. -/
def declaring (name : String) (sort : BaseSort) : List Char :=
  ("(declare-fun " ++ name ++ " () " ++ sort.name ++ ") ").toList

/-- How a declaration is laid out. -/
def Layout.declaration (name : String) (sort : BaseSort) : Layout :=
  .list [] [.atom [] "declare-fun".toList, .atom [' '] name.toList, .list [' '] [] [] true,
    .atom [' '] sort.name.toList] [] true

namespace Layout

variable {name : String} {sort : BaseSort}

theorem declaring_eq (name : String) (sort : BaseSort) :
    declaring name sort = (declaration name sort).chars ++ [' '] := by
  simp [declaring, declaration, chars, charsAll]

theorem stands_declaration (hname : IsAtomText name.toList) (rest : List Char) :
    (declaration name sort).Stands rest := by
  have hhead : IsAtomText "declare-fun".toList := .inl (.of_all (by decide) (by decide) (by decide))
  have hsort : IsAtomText sort.name.toList := by
    cases sort <;> exact .inl (.of_all (by decide) (by decide) (by decide))
  have hspace (cs : List Char) : Delimited (' ' :: cs) := delimited_cons.2 rfl
  have hclose (cs : List Char) : Delimited (')' :: cs) := delimited_cons.2 rfl
  have hblank : Blanks [' '] := by decide
  have hclosed (rest : List Char) : true = false → rest = [] := fun h =>
    absurd h.symm Bool.false_ne_true
  rw [declaration, Stands]
  refine ⟨.nil, hclosed _, .inr (.inr ⟨List.cons_ne_nil _ _, .nil, ?_⟩)⟩
  exact ⟨⟨.nil, hhead.stands fun _ => hspace _⟩, ⟨hblank, hname.stands fun _ => hspace _⟩,
    ⟨hblank, hclosed _, .inl ⟨rfl, rfl⟩⟩, ⟨hblank, hsort.stands fun _ => hclose _⟩, trivial⟩

theorem openAt?_declaration (offset : Nat) : (declaration name sort).openAt? offset = none := rfl

theorem ofForm_declaration (offset : Nat) :
    Command.ofForm ((declaration name sort).form offset) = .ok (.declare name sort) := by
  have hignored : Command.isIgnored "declare-fun" = false := by decide
  simp only [declaration, form, forms, Command.ofForm, Command.declaration, String.ofList_toList,
    hignored, Bool.false_eq_true, if_false, if_true, BaseSort.ofName?_eq_some_iff.2 rfl]

end Layout

namespace Session

variable {name : String} {options : Options}

/-- A session that knows nothing has the session alongside that knows the declared
name. -/
theorem alongside_declare {session : Session Backend} (hscope : session.scope = Scope.empty)
    (hdeclared : session.solver.declared = Table.empty) (events : List Event) (name : String)
    (sort : BaseSort) :
    session.Alongside name ((session.record options events).declare options name sort) where
  status := by rw [status_declare, status_record]
  verdicts := by rw [verdicts_declare, verdicts_record]
  lines := by rw [lines_declare, lines_record]
  sorts := by
    rw [scope_declare, scope_record, hscope]
    refine ⟨⟨sort, by simp⟩, fun other => ?_⟩
    by_cases hother : other = name
    · exact .inr ⟨hother, rfl⟩
    · exact .inl (by simp [hother])
  terms := by
    rw [solver_declare, solver_record, Backend.declared_declare, hdeclared]
    refine ⟨⟨Term.ofDeclaration name sort, by simp⟩, fun other => ?_⟩
    by_cases hother : other = name
    · exact .inr ⟨hother, rfl⟩
    · exact .inl (by simp [hother])
  answers := by rw [solver_declare, solver_record]; rfl
  demands := by rw [solver_declare, solver_record]; rfl

/-- **A declaration in front of a script is taken**, and the run goes on with the
script, alongside the run of the script alone. -/
theorem exists_run_declaring (hname : IsAtomText name.toList) (hcomment : ';' ∉ name.toList)
    (options : Options) (library : Library) (timeout : Option Number) (sort : BaseSort)
    (script : List Char) :
    ∃ (session : Session Backend) (cursor : Cursor),
      run options (Backend.start library timeout) (declaring name sort ++ script) =
        runFrom options session cursor 1 ∧
      Alongside name { solver := Backend.start library timeout } session ∧
      cursor.skipBlanks =
        (Cursor.ofText (Text.withoutComments script)).skipBlanks.shift
          (Text.units (declaring name sort)) := by
  have hplain : ';' ∉ declaring name sort := by
    cases sort <;> simp [declaring, BaseSort.name, hcomment]
  have htext : Text.withoutComments (declaring name sort ++ script) =
      (Layout.declaration name sort).chars ++ (' ' :: Text.withoutComments script) := by
    rw [Text.withoutComments, Text.withoutFrom_append, Text.insideAfter_of_not_mem hplain,
      ← Text.withoutComments, Text.withoutComments_of_not_mem hplain, Layout.declaring_eq,
      List.append_assoc]
    rfl
  obtain ⟨event, hrun⟩ := runFrom_form options
    ({ solver := Backend.start library timeout } : Session Backend) 0 0
    (@Layout.stands_declaration name sort hname (' ' :: Text.withoutComments script))
    fun _ => Layout.openAt?_declaration 0
  rw [step_of_takes (.declared (status_record _) (Layout.ofForm_declaration 0)), proceed,
    Nat.zero_add] at hrun
  refine ⟨_, _, (congrArg (runFrom options _ · 0) (congrArg Cursor.ofText htext)).trans hrun,
    alongside_declare rfl (Backend.declared_start library timeout) [event] name sort, ?_⟩
  have hunits : Text.units (declaring name sort) =
      Text.units (Layout.declaration name sort).chars + 1 := by
    rw [Layout.declaring_eq, Text.units_append]
    rfl
  have hblank : Text.isBlank ' ' = true := rfl
  have hskip := Cursor.skipFrom_shift (Text.units (Layout.declaration name sort).chars + 1) 0
    (Text.withoutComments script)
  rw [Nat.zero_add] at hskip
  rw [Cursor.skipBlanks, Cursor.skipFrom, if_pos hblank, hunits]
  exact hskip

/-! ## Where a name is missing -/

/-- **What ends a run is an open list or what a form of the text comes to.** -/
theorem exists_step_of_fault {pieces : List Piece} {gap : List Char} {offset forms : Nat}
    {fault : Fault} {session : Session Backend} (hlaid : Piece.Laid pieces gap)
    (hrunning : session.status = .running)
    (h : (runFrom options session ⟨offset, Piece.charsAll pieces ++ gap⟩ forms).ending =
      .error fault) :
    (∃ unclosed : Unclosed, fault = unclosed.fault) ∨
      ∃ (session' : Session Backend) (form : Form),
        form ∈ Piece.forms false offset gap pieces ∧
          (session'.step options form).2 = .error fault := by
  obtain ⟨taken, result, hprefix, -, hexecutes, hends, -⟩ :=
    @executes_runFrom Backend options session _ pieces gap offset forms hlaid hrunning
  rw [h] at hends
  match result with
  | .error found =>
    cases hends
    obtain ⟨session', form, hform, hstep⟩ := hexecutes.exists_step rfl
    exact .inr ⟨session', form, hprefix.subset hform, hstep⟩
  | .ok .terminated => cases hends
  | .ok .running =>
    rcases hends with hends | ⟨unclosed, hends⟩
    · cases hends
    · exact .inl ⟨unclosed, Except.error.inj hends⟩

/-- A name is missing in what is asserted only. -/
theorem exists_assert_of_misses {session : Session Backend} {form : Form} {fault : Fault}
    (h : (session.step options form).2 = .error fault) (hmisses : fault.Misses name) :
    ∃ body, Command.ofForm form = .ok (.assert body) ∧
      (session.assert options body).2 = .error fault := by
  have htakes := takes_step options session form
  generalize (session.step options form).1 = session' at htakes
  rw [h] at htakes
  cases htakes with
  | malformed _ hcommand => exact absurd hmisses (Command.avoids_ofForm form fault hcommand)
  | meaningless _ hcommand helaborated =>
    refine ⟨_, hcommand, ?_⟩
    rw [result_assert, helaborated]
    rfl
  | refused _ hcommand helaborated hrefused =>
    refine ⟨_, hcommand, ?_⟩
    simp only [assert, solver_record, helaborated, hrefused]

/-- **An assertion misses a name that is no argument in it only for a list of the
name alone**: the elaboration takes it for an operator that yields truth values,
and the back end for a variable. -/
theorem eq_of_assert_misses {session : Session Backend} {body : Form} {fault : Fault}
    (hrefers : body.refersTo name = false) (h : (session.assert options body).2 = .error fault)
    (hmisses : fault.Misses name) :
    fault = refusal (.noTerm name) ∧ Expr.yieldsBool name = true ∧
      body.holdsAlone name = true := by
  rw [result_assert] at h
  have helaborated := @Expr.avoids_ofForm name options.fractionalNumerals body session.scope hrefers
  cases hexpr : (Expr.ofForm options.fractionalNumerals session.scope body).result with
  | error found =>
    rw [hexpr] at h helaborated
    cases h
    exact absurd hmisses (helaborated _ rfl)
  | ok expr =>
    rw [hexpr] at h
    change (Term.ofAssertion session.solver.declared expr).mapError refusal >>= _ = _ at h
    cases hterm : Term.ofAssertion session.solver.declared expr with
    | ok term => rw [hterm] at h; cases h
    | error found =>
      rw [hterm] at h
      cases h
      obtain rfl := misses_refusal.1 hmisses
      refine ⟨rfl, ?_⟩
      by_contra halone
      have hignores : Term.Ignores name expr :=
        Term.ignores_ofForm body hrefers (fun hbool => by simpa [hbool] using halone) hexpr
      exact (hignores session.solver.declared).bind
        (fun t _ => Term.avoids_of_bound (SortedTerm.bound_asBool "assert" t)) _ hterm rfl

/-- **An unused declaration in front of a script changes nothing**, unless an
operator stands in the script without arguments that has the declared name. Let
the name be an atom, and no argument in what the script asserts. Then the run
behind the declaration is alike the run of the script alone, a form later and
with its faults further on, just if the latter does not end with the fault that
the back end has no term for the name. It ends so only if the name is an
operator that yields truth values, and a list of it alone stands in an
assertion. -/
theorem run_behind_declaration (options : Options) (library : Library)
    (timeout : Option Number) (name : String) (sort : BaseSort) (script : List Char)
    (hname : IsAtomText name.toList) (hcomment : ';' ∉ name.toList)
    (hunused : ∀ form ∈ forms (Text.withoutComments script), ∀ body,
      Command.ofForm form = .ok (.assert body) → body.refersTo name = false) :
    let alone := run options (Backend.start library timeout) script
    let longer := run options (Backend.start library timeout) (declaring name sort ++ script)
    (alone.AlikeBehind (Text.units (declaring name sort)) longer ↔
      alone.ending ≠ .error ⟨.backend (.noTerm name), none⟩) ∧
    (alone.ending = .error ⟨.backend (.noTerm name), none⟩ →
      Expr.yieldsBool name = true ∧
      ∃ form ∈ forms (Text.withoutComments script), ∃ body,
        Command.ofForm form = .ok (.assert body) ∧ body.holdsAlone name = true) := by
  intro alone longer
  obtain ⟨session, cursor, hlonger, halongside, hskip⟩ :=
    exists_run_declaring hname hcomment options library timeout sort script
  have hknown : Avoids (Fault.Misses name) longer.ending := by
    rw [show longer.ending = _ from congrArg Outcome.ending hlonger]
    exact avoids_runFrom halongside.self cursor 1
  -- the only way to miss the name is an operator that stands alone
  have hmissing (fault : Fault) (hending : alone.ending = .error fault)
      (hmisses : fault.Misses name) :
      fault = refusal (.noTerm name) ∧ Expr.yieldsBool name = true ∧
      ∃ form ∈ SatScript.forms (Text.withoutComments script), ∃ body,
        Command.ofForm form = .ok (.assert body) ∧ body.holdsAlone name = true := by
    obtain ⟨pieces, gap, htext, hlaid⟩ := exists_pieces (Text.withoutComments script)
    have hrun : (runFrom options { solver := Backend.start library timeout }
        ⟨0, Piece.charsAll pieces ++ gap⟩ 0).ending = .error fault := by
      rw [← htext]
      exact hending
    rw [htext, forms_pieces hlaid] at hunused ⊢
    rcases exists_step_of_fault hlaid rfl hrun with ⟨unclosed, rfl⟩ | ⟨session', form, hform, hstep⟩
    · exact absurd hmisses Bool.false_ne_true
    · obtain ⟨body, hcommand, hassert⟩ := exists_assert_of_misses hstep hmisses
      obtain ⟨hfault, hbool, halone⟩ :=
        eq_of_assert_misses (hunused form hform body hcommand) hassert hmisses
      exact ⟨hfault, hbool, form, hform, body, hcommand, halone⟩
  refine ⟨⟨fun halike hending => ?_, fun hending => ?_⟩, fun hending => ?_⟩
  · -- alike runs would both miss the name
    refine hknown ⟨.backend (.noTerm name), none⟩ ?_ (misses_refusal.2 rfl)
    rw [halike.ending, hending]
    rfl
  · have havoids : Avoids (Fault.Misses name) alone.ending := by
      intro fault hfault hmisses
      rw [(hmissing fault hfault hmisses).1] at hfault
      exact hending hfault
    rw [show longer = _ from hlonger]
    exact runFrom_alongside halongside hskip 0 havoids
  · exact (hmissing _ hending (misses_refusal.2 rfl)).2

/-- A library that was asked nothing and answers nothing. -/
def unasked : Library := { answers := ⟨[]⟩ }

/-- An operator with arguments is no variable: that `and` is declared changes
nothing. -/
theorem run_behind_declaration_operator :
    let script := "(assert (and true (and true false)))".toList
    let alone := run {} (Backend.start unasked none) script
    let longer := run {} (Backend.start unasked none) (declaring "and" .real ++ script)
    (IsAtomText "and".toList ∧ ';' ∉ "and".toList ∧
      ∀ form ∈ SatScript.forms (Text.withoutComments script), ∀ body,
        Command.ofForm form = .ok (.assert body) → body.refersTo "and" = false) ∧
    alone.AlikeBehind 26 longer := by
  have hname : IsAtomText "and".toList := .inl (.of_all (by decide) (by decide) (by decide))
  have hcomment : ';' ∉ "and".toList := by decide
  have hunits : Text.units (declaring "and" .real) = 26 := by decide
  have hforms : SatScript.forms
      (Text.withoutComments "(assert (and true (and true false)))".toList) =
        [.list [.atom "assert" 1 7, .list [.atom "and" 9 12, .atom "true" 13 17,
          .list [.atom "and" 19 22, .atom "true" 23 27, .atom "false" 28 33] 18 34] 8 35] 0 36] := by
    cbv
  intro script alone longer
  have hbody (form : Form) (hform : form ∈ SatScript.forms (Text.withoutComments script))
      (body : Form) (hcommand : Command.ofForm form = .ok (.assert body)) :
      body.refersTo "and" = false ∧ body.holdsAlone "and" = false := by
    rw [hforms, List.mem_singleton] at hform
    subst hform
    cases hcommand
    exact ⟨by decide, by decide⟩
  have hunused := fun form hform body hcommand => (hbody form hform body hcommand).1
  refine ⟨⟨hname, hcomment, hunused⟩, ?_⟩
  have hrun := run_behind_declaration {} unasked none "and" .real script hname hcomment hunused
  rw [hunits] at hrun
  refine hrun.1.2 fun hending => ?_
  obtain ⟨-, form, hform, body, hcommand, halone⟩ := hrun.2 hending
  rw [(hbody form hform body hcommand).2] at halone
  cases halone

/-- **Without arguments it is taken for one**: `(and)` is elaborated as an operator,
and then it is the declared variable that is added. So the script fails alone, and
behind the declaration it does not. -/
theorem run_behind_declaration_bare :
    let script := "(assert (and))".toList
    let alone := run {} (Backend.start unasked none) script
    let longer := run {} (Backend.start unasked none) (declaring "and" .bool ++ script)
    (IsAtomText "and".toList ∧ ';' ∉ "and".toList ∧
      SatScript.forms (Text.withoutComments script) =
        [.list [.atom "assert" 1 7, .list [.atom "and" 9 12] 8 13] 0 14]) ∧
    alone.ending = .error ⟨.backend (.noTerm "and"), none⟩ ∧
    alone.session.solver.library.log = [.load, .context] ∧
    longer.ending = .ok .endOfInput ∧
    longer.session.solver.library.log = [.load, .context, .add (.constant .bool "and")] := by
  have hname : IsAtomText "and".toList := .inl (.of_all (by decide) (by decide) (by decide))
  have hcomment : ';' ∉ "and".toList := by decide
  have hforms : SatScript.forms (Text.withoutComments "(assert (and))".toList) =
      [.list [.atom "assert" 1 7, .list [.atom "and" 9 12] 8 13] 0 14] := by cbv
  have halone : (run {} (Backend.start unasked none) "(assert (and))".toList).ending =
      .error ⟨.backend (.noTerm "and"), none⟩ := by cbv
  have hlog : (run {} (Backend.start unasked none)
      "(assert (and))".toList).session.solver.library.log = [.load, .context] := by cbv
  have hlonger : (run {} (Backend.start unasked none)
      (declaring "and" .bool ++ "(assert (and))".toList)).ending = .ok .endOfInput := by cbv
  have hadded : (run {} (Backend.start unasked none)
      (declaring "and" .bool ++ "(assert (and))".toList)).session.solver.library.log =
        [.load, .context, .add (.constant .bool "and")] := by cbv
  exact ⟨⟨hname, hcomment, hforms⟩, halone, hlog, hlonger, hadded⟩

end Session

end SatScript
