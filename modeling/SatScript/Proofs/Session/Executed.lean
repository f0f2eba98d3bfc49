import SatScript.Proofs.Layout.Existence
import SatScript.Proofs.Session.Alongside
/-!
# SatScript — the forms that a run executes

A run executes the first forms of its text: it goes on behind each of them but
the last, and what ends it there is an `exit`, a fault or the end of the text
(`executes_run`). That holds with open lists reported too, which are no forms
then. The verdicts that are printed belong to those of the forms that are
headed by `check-sat`, and are the answers of the back end in their order
(`lines_run`).
-/

namespace SatScript

namespace Session

variable {σ : Type} {options : Options} {session session' : Session σ} [Solver σ]

/-! ## Executing forms -/

/-- A session takes forms one after another, and goes on behind each but the last.
Events may be recorded before a form is taken. -/
inductive Executes (options : Options) :
    Session σ → List Form → Session σ → Except Fault Status → Prop
  /-- No form is taken. -/
  | nothing (session : Session σ) : Executes options session [] session (.ok .running)
  /-- A form ends the session, or is at fault. -/
  | last {session session' : Session σ} {events : List Event} {form : Form}
      {result : Except Fault Status} :
      (session.record options events).step options form = (session', result) →
      result ≠ .ok .running → Executes options session [form] session' result
  /-- The session goes on behind a form. -/
  | next {session session' session'' : Session σ} {events : List Event} {form : Form}
      {forms : List Form} {result : Except Fault Status} :
      (session.record options events).step options form = (session', .ok .running) →
      Executes options session' forms session'' result →
      Executes options session (form :: forms) session'' result

/-- How a run ends behind forms that come to this: as they do, or with the end of the
text or an open list. -/
def EndsBehind (result : Except Fault Status) (ending : Except Fault Ending) : Prop :=
  match result with
  | .error fault => ending = .error fault
  | .ok .terminated => ending = .ok .exit
  | .ok .running => ending = .ok .endOfInput ∨ ∃ unclosed : Unclosed, ending = .error unclosed.fault

/-- The fault behind forms is that of one of them. -/
theorem Executes.exists_step {forms : List Form} {result : Except Fault Status} {fault : Fault}
    (h : Executes options session forms session' result) (hresult : result = .error fault) :
    ∃ (before : Session σ) (form : Form),
      form ∈ forms ∧ (before.step options form).2 = .error fault := by
  induction h with
  | nothing => cases hresult
  | last hstep => exact ⟨_, _, List.mem_cons_self, (congrArg Prod.snd hstep).trans hresult⟩
  | next _ _ ih =>
    obtain ⟨before, form, hmem, hfault⟩ := ih hresult
    exact ⟨before, form, List.mem_cons_of_mem _ hmem, hfault⟩

/-! ## What a run executes -/

/-- **A run over pieces executes the first of their forms**, and counts them; all of
them if it ends with the text. -/
theorem executes_runFrom {pieces : List Piece} {gap : List Char} {offset taken : Nat}
    (hlaid : Piece.Laid pieces gap) (hrunning : session.status = .running) :
    let outcome := runFrom options session ⟨offset, Piece.charsAll pieces ++ gap⟩ taken
    ∃ forms result, forms <+: Piece.forms false offset gap pieces ∧
      outcome.forms = taken + forms.length ∧
      Executes options session forms outcome.session result ∧
      EndsBehind result outcome.ending ∧
      (outcome.ending = .ok .endOfInput → forms = Piece.forms false offset gap pieces) := by
  induction pieces generalizing offset taken session with
  | nil =>
    rw [Piece.charsAll, List.nil_append, runFrom_blanks _ _ _ _ hlaid]
    exact ⟨[], _, List.nil_prefix, rfl, .nothing session, .inl rfl, fun _ => by simp [Piece.forms]⟩
  | cons piece pieces ih =>
    cases piece with
    | stray before =>
      rw [Piece.Laid] at hlaid
      rw [Piece.charsAll, Piece.chars, List.append_assoc, List.append_assoc,
        List.singleton_append, runFrom_stray options session offset taken _ hlaid.1 hrunning,
        Piece.forms]
      have hstep := @step_of_takes σ options (session.record options [.parsed "" ""]) _ _
        (Reader.emptyAtom (offset + Text.units before)) _
        (.malformed ((status_record _).trans hrunning) rfl)
      exact ⟨_, _, List.prefix_append [_] _, rfl, .last hstep (by simp), rfl, fun h => by cases h⟩
    | form layout =>
      rw [Piece.Laid] at hlaid
      rw [Piece.charsAll, Piece.chars, List.append_assoc, Piece.forms]
      by_cases hopen : options.strictLists = true ∧ (layout.openAt? offset).isSome = true
      · obtain ⟨start, hstart⟩ := Option.isSome_iff_exists.1 hopen.2
        obtain ⟨unclosed, hrun⟩ :=
          runFrom_open options session offset taken hlaid.1 hopen.1 hstart
        rw [hrun]
        exact ⟨[], _, List.nil_prefix, rfl, .nothing session, .inr ⟨unclosed, rfl⟩,
          fun h => by cases h⟩
      · have hclosed : options.strictLists = true → layout.openAt? offset = none := fun hs =>
          Option.not_isSome_iff_eq_none.1 fun hisSome => hopen ⟨hs, hisSome⟩
        obtain ⟨event, hrun⟩ := runFrom_form options session offset taken hlaid.1 hclosed
        rw [hrun]
        rcases hstep : (session.record options [event]).step options (layout.form offset) with
          ⟨next, fault | _ | _⟩
        · exact ⟨_, _, List.prefix_append [_] _, rfl, .last hstep (by simp), rfl,
            fun h => by cases h⟩
        · obtain ⟨forms, result, hprefix, hcount, hexecutes, hends, hall⟩ :=
            @ih next (offset + Text.units layout.chars) (taken + 1) hlaid.2 (status_of_step hstep)
          refine ⟨layout.form offset :: forms, result, List.cons_prefix_cons.2 ⟨rfl, hprefix⟩, ?_,
            .next hstep hexecutes, hends, fun h => congrArg _ (hall h)⟩
          rw [proceed, hcount, List.length_cons, Nat.add_assoc, Nat.add_comm 1]
        · exact ⟨_, _, List.prefix_append [_] _, rfl, .last hstep (by simp), rfl,
            fun h => by cases h⟩

/-- **A run executes the first forms of its script**, as many as it counts, and all of
them if it ends with the text. -/
theorem executes_run (options : Options) (solver : σ) (script : List Char) :
    let outcome := run options solver script
    let executed := (forms (Text.withoutComments script)).take outcome.forms
    (∃ result, Executes options { solver } executed outcome.session result ∧
      EndsBehind result outcome.ending) ∧
    (outcome.ending = .ok .endOfInput → executed = forms (Text.withoutComments script)) := by
  obtain ⟨pieces, gap, htext, hlaid⟩ := exists_pieces (Text.withoutComments script)
  obtain ⟨forms, result, hprefix, hcount, hexecutes, hends, hall⟩ :=
    @executes_runFrom σ options { solver } _ pieces gap 0 0 hlaid rfl
  rw [← htext] at hcount hexecutes hends hall
  have hexecuted : (SatScript.forms (Text.withoutComments script)).take
      (run options solver script).forms = forms := by
    rw [htext, forms_pieces hlaid, run, Cursor.ofText, hcount, Nat.zero_add,
      ← List.prefix_iff_eq_take.1 hprefix]
  intro outcome executed
  rw [show executed = forms from hexecuted, htext, forms_pieces hlaid]
  exact ⟨⟨result, hexecutes, hends⟩, hall⟩

end Session

/-! ## What is printed -/

namespace Answers

variable {α : Type}

/-- The answers to the next checks. -/
def first (answers : Answers α) (otherwise : α) : Nat → List α
  | 0 => []
  | n + 1 => (answers.next otherwise).1 :: first (answers.next otherwise).2 otherwise n

end Answers

/-- Whether the form asks for a verdict. -/
def Form.isCheck (form : Form) : Bool := form.headText? == some "check-sat"

/-- **A form is the command to check just if it is headed so**, whatever else stands
in it. -/
theorem Command.ofForm_eq_check_iff {form : Form} :
    Command.ofForm form = .ok .check ↔ form.isCheck = true := by
  rw [Form.isCheck, beq_iff_eq]
  constructor
  · intro h
    obtain ⟨head, start, stop, rest, p, q, rfl, hcases⟩ := Command.cases_of_ofForm h
    rcases hcases with ⟨-, h⟩ | ⟨-, _, _, _, _, _, -, h⟩ | ⟨-, _, -, h⟩ | ⟨rfl, -⟩ | ⟨-, h⟩
    case inr.inr.inr.inl => rfl
    all_goals cases h
  · intro h
    unfold Form.headText? at h
    split at h
    · cases h
      rfl
    · cases h

namespace Session

variable {options : Options} {session session' : Session Backend}

/-- The lines that are printed for answers. -/
def printed (answers : List String) : List String :=
  answers.map fun answer => (Verdict.ofAnswer answer).text

/-- The answers that the back end of a session has still to give. -/
def answers (session : Session Backend) : Answers String := session.solver.library.answers

@[simp] theorem answers_record (events : List Event) :
    (session.record options events).answers = session.answers :=
  congrArg (fun solver : Backend => solver.library.answers) (solver_record events)

/-- **A form prints the next answer if it is a check**, and nothing otherwise. -/
theorem lines_step (options : Options) (session : Session Backend) (form : Form)
    (hrunning : session.status = .running) :
    let next := session.answers.next Verdict.unknown.text
    let session' := (session.step options form).1
    session'.lines = session.lines ++ (if form.isCheck then printed [next.1] else []) ∧
      session'.answers = if form.isCheck then next.2 else session.answers := by
  intro next session'
  have hother {command : Command} (hcommand : Command.ofForm form = .ok command)
      (hne : command ≠ .check) : form.isCheck = false := by
    rw [Bool.eq_false_iff, Ne, ← Command.ofForm_eq_check_iff, hcommand]
    exact fun h => hne (Except.ok.inj h)
  have hkeeps (hcheck : form.isCheck = false) (hlines : session'.lines = session.lines)
      (hanswers : session'.answers = session.answers) :
      session'.lines = session.lines ++ (if form.isCheck then printed [next.1] else []) ∧
        session'.answers = if form.isCheck then next.2 else session.answers := by
    rw [hcheck, hlines, hanswers]
    exact ⟨(List.append_nil _).symm, rfl⟩
  have htakes := takes_step options session form
  rw [show (session.step options form).1 = session' from rfl] at htakes
  generalize session' = after, (session.step options form).2 = result at htakes hkeeps ⊢
  cases htakes with
  | ended hstatus => rw [hrunning] at hstatus; cases hstatus
  | malformed _ hcommand =>
    refine hkeeps ?_ rfl rfl
    rw [Bool.eq_false_iff, Ne, ← Command.ofForm_eq_check_iff, hcommand]
    simp
  | ignored _ hcommand =>
    exact hkeeps (hother hcommand Command.noConfusion) (lines_record _) (answers_record _)
  | declared _ hcommand =>
    refine hkeeps (hother hcommand Command.noConfusion) (lines_declare _ _) ?_
    rw [answers, solver_declare]
    rfl
  | meaningless _ hcommand =>
    exact hkeeps (hother hcommand Command.noConfusion) (lines_record _) (answers_record _)
  | refused _ hcommand =>
    exact hkeeps (hother hcommand Command.noConfusion) (lines_record _) (answers_record _)
  | asserted _ hcommand _ hasserted =>
    refine hkeeps (hother hcommand Command.noConfusion) (lines_record _) ?_
    -- only calls are added to the library
    obtain ⟨term, -, rfl⟩ := Backend.exists_of_assert hasserted
    rfl
  | checked _ hcommand =>
    rw [if_pos (Command.ofForm_eq_check_iff.1 hcommand),
      if_pos (Command.ofForm_eq_check_iff.1 hcommand)]
    obtain ⟨hverdict, hanswers, -⟩ := Backend.check_eq session.solver options.produceModels
    rw [lines_check, hverdict, answers, solver_check, hanswers]
    exact ⟨rfl, rfl⟩
  | exited _ hcommand => exact hkeeps (hother hcommand Command.noConfusion) rfl rfl

/-- The answer to a form that is a check comes before the answers to the forms behind
it. -/
theorem printed_of_step {events : List Event} {form : Form} {result : Except Fault Status}
    (hrunning : session.status = .running)
    (hstep : (session.record options events).step options form = (session', result)) (n : Nat) :
    session'.lines ++ printed (session'.answers.first Verdict.unknown.text n) =
      session.lines ++ printed (session.answers.first Verdict.unknown.text
        (n + if form.isCheck then 1 else 0)) := by
  obtain ⟨hlines, hanswers⟩ := lines_step options (session.record options events) form
    ((status_record events).trans hrunning)
  rw [hstep, answers_record] at hanswers
  rw [hstep, lines_record, answers_record] at hlines
  rw [hlines, hanswers, List.append_assoc]
  cases form.isCheck
  · rfl
  · rfl

/-- **What is printed are the answers to the checks that are executed**, in order. -/
theorem lines_of_executes {forms : List Form} {result : Except Fault Status}
    (h : Executes options session forms session' result) (hrunning : session.status = .running) :
    session'.lines = session.lines ++
      printed (session.answers.first Verdict.unknown.text (forms.countP Form.isCheck)) := by
  induction h with
  | nothing => exact (List.append_nil _).symm
  | last hstep =>
    rw [List.countP_cons, List.countP_nil, ← printed_of_step hrunning hstep]
    exact (List.append_nil _).symm
  | next hstep _ ih =>
    rw [List.countP_cons, ← printed_of_step hrunning hstep]
    exact ih (status_of_step hstep)

/-- **A run prints a verdict for each check that it executes**, and that also if it
fails later: the answers of the back end, in order. -/
theorem lines_run (options : Options) (backend : Backend) (script : List Char) :
    let outcome := run options backend script
    let executed := (forms (Text.withoutComments script)).take outcome.forms
    outcome.session.lines =
      printed (backend.library.answers.first Verdict.unknown.text
        (executed.countP Form.isCheck)) := by
  intro outcome executed
  obtain ⟨⟨result, hexecutes, -⟩, -⟩ := executes_run options backend script
  exact lines_of_executes hexecutes rfl

end Session

end SatScript
