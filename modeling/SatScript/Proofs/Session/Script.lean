import SatScript.Proofs.Layout.Existence
import SatScript.Proofs.Session.Running
/-!
# SatScript — a run is a fold over forms

There are two ways to read a script: all forms at once, or one form at a
time, as a run does. They differ where a parenthesis closes nothing, which
the one passes over and the other meets again; a run does not, since the
empty atom that it is read as ends it. So a run does what the forms do
that are read at once, when they are taken one after another
(`run_eq_stepThrough`), and its trace tells besides from which part of the
text each form was read.
-/

namespace SatScript

namespace Session

variable {σ : Type} {options : Options} {session : Session σ}

/-! ## What does not depend on the trace -/

/-- The session with nothing in its trace yet. -/
def fresh (session : Session σ) : Session σ := { session with trace := [] }

/-- The session with events before those in its trace. -/
def behind (events : List Event) (session : Session σ) : Session σ :=
  { session with trace := events ++ session.trace }

@[simp] theorem fresh_behind (events : List Event) :
    (session.behind events).fresh = session.fresh :=
  rfl

@[simp] theorem fresh_record (events : List Event) :
    (session.record options events).fresh = session.fresh := by
  rw [record]
  split <;> rfl

theorem behind_fresh : session.fresh.behind session.trace = session := by
  rw [behind, fresh, List.append_nil]

theorem record_behind (events more : List Event) :
    (session.behind events).record options more = (session.record options more).behind events := by
  rw [record, record]
  split
  · rw [behind, behind, List.append_assoc]
  · rfl

variable [Solver σ]

/-- Events that are put before those in the trace stay there. -/
theorem commutes_behind (events : List Event) :
    Commutes options options (behind (σ := σ) events) where
  fractional := rfl
  status _ := rfl
  scope _ := rfl
  record session more := (record_behind events more).symm
  declare session name sort := by
    simp only [declare, record_behind]
    rfl
  check session := by
    simp only [check, record_behind]
    rfl
  refuse := id
  assert more hasserted := by
    refine ⟨_, hasserted, ?_⟩
    rw [record_behind]
    rfl
  exit _ := rfl

/-- **A step does not look at the trace**, it only adds to it. -/
theorem step_behind (events : List Event) (form : Form) :
    (session.behind events).step options form =
      ((session.step options form).1.behind events, (session.step options form).2) :=
  (commutes_behind events).step session form

/-- A step is one that begins with an empty trace, with its events put behind
those that are there. -/
theorem step_eq_fresh (options : Options) (session : Session σ) (form : Form) :
    session.step options form =
      ((session.fresh.step options form).1.behind session.trace,
        (session.fresh.step options form).2) := by
  rw [← step_behind, behind_fresh]

/-! ## Forms that are read at once -/

/-- Take forms one after another, up to the first that fails or ends the
session; `taken` were taken before. -/
def stepThrough (options : Options) (session : Session σ) (taken : Nat) : List Form → Outcome σ
  | [] => ⟨session, taken, .ok .endOfInput⟩
  | form :: forms =>
    match session.step options form with
    | (session, .error fault) => ⟨session, taken + 1, .error fault⟩
    | (session, .ok .terminated) => ⟨session, taken + 1, .ok .exit⟩
    | (session, .ok .running) => stepThrough options session (taken + 1) forms

/-- The events that a form traces itself. -/
def ownEvents (options : Options) (session : Session σ) (form : Form) : List Event :=
  (session.fresh.step options form).1.trace

/-- The forms that are taken so, each with the events of its own. -/
def heard (options : Options) (session : Session σ) : List Form → List (Form × List Event)
  | [] => []
  | form :: forms =>
    (form, session.ownEvents options form) ::
      match session.step options form with
      | (session, .ok .running) => heard options session forms
      | _ => []

/-- What is traced of forms that are read from these parts of a text: the part
and the form, and behind them what the form has traced itself. -/
def told (texts : List (List Char)) (taken : List (Form × List Event)) : List Event :=
  (List.zipWith (fun text entry => .parsed (String.ofList text) entry.1.render :: entry.2)
    texts taken).flatten

end Session

/-- The outcome with nothing in the trace. -/
def Outcome.fresh {σ : Type} (outcome : Outcome σ) : Outcome σ :=
  { outcome with session := outcome.session.fresh }

/-- Texts stand one after another in a text, each where its form does, with only
blanks before and between them; `rest` is what follows the last. -/
inductive Spread : Nat → List (List Char) → List Form → List Char → List Char → Prop
  | done {offset : Nat} {rest : List Char} : Spread offset [] [] rest rest
  | next {offset : Nat} {gap text more rest : List Char} {texts : List (List Char)} {form : Form}
      {forms : List Form} : Blanks gap →
      form.start = offset + Text.units gap → form.stop = form.start + Text.units text →
      Spread form.stop texts forms more rest →
      Spread offset (text :: texts) (form :: forms) (gap ++ (text ++ more)) rest

namespace Session

variable {σ : Type} {options : Options} {session : Session σ} [Solver σ]

/-! ## Which forms are taken -/

/-- A running session ends with a form headed by `exit` and with no other. -/
theorem step_eq_terminated_iff (options : Options) (hrunning : session.status = .running)
    (form : Form) :
    (session.step options form).2 = .ok .terminated ↔ form.headText? = some "exit" := by
  constructor
  · intro h
    have htakes := takes_step options session form
    rw [h] at htakes
    generalize (session.step options form).1 = session' at htakes
    cases htakes with
    | ended hstatus => rw [hrunning] at hstatus; cases hstatus
    | exited _ hcommand =>
      obtain ⟨head, start, stop, rest, p, q, rfl, hcases⟩ := Command.cases_of_ofForm hcommand
      rcases hcases with ⟨-, h⟩ | ⟨-, _, _, _, _, _, -, h⟩ | ⟨-, _, -, h⟩ | ⟨-, h⟩ | ⟨rfl, -⟩
      case inr.inr.inr.inr => rfl
      all_goals cases h
  · intro h
    obtain ⟨start, stop, rest, p, q, rfl⟩ :
        ∃ start stop rest p q, form = .list (.atom "exit" start stop :: rest) p q := by
      unfold Form.headText? at h
      split at h
      · cases h
        exact ⟨_, _, _, _, _, rfl⟩
      · cases h
    rw [step_of_takes (.exited hrunning rfl)]

/-- The forms that are taken are the first ones, and they are counted. -/
theorem forms_stepThrough (options : Options) (session : Session σ) (taken : Nat)
    (forms : List Form) :
    (heard options session forms).map Prod.fst =
        forms.take (heard options session forms).length ∧
      (stepThrough options session taken forms).forms =
        taken + (heard options session forms).length := by
  induction forms generalizing session taken with
  | nil => exact ⟨rfl, rfl⟩
  | cons form forms ih =>
    rw [heard, stepThrough]
    rcases session.step options form with ⟨session', fault | _ | _⟩
    · exact ⟨rfl, rfl⟩
    · obtain ⟨htake, hforms⟩ := ih session' (taken + 1)
      dsimp only
      refine ⟨?_, ?_⟩
      · rw [List.map_cons, List.length_cons, List.take_succ_cons, htake]
      · rw [hforms, List.length_cons]
        omega
    · exact ⟨rfl, rfl⟩

/-- **The forms end the session just if `exit` is reached.** -/
theorem ending_stepThrough (hrunning : session.status = .running) (taken : Nat)
    (forms : List Form) :
    (stepThrough options session taken forms).ending = .ok .exit ↔
      ∃ form ∈ (heard options session forms).map Prod.fst, form.headText? = some "exit" := by
  induction forms generalizing session taken with
  | nil => simp [stepThrough, heard]
  | cons form forms ih =>
    have hexit := step_eq_terminated_iff options hrunning form
    rw [heard, stepThrough]
    rcases hstep : session.step options form with ⟨session', fault | _ | _⟩
    · rw [hstep] at hexit
      simp [← hexit]
    · rw [hstep] at hexit
      dsimp only
      simp only [List.map_cons, List.mem_cons, exists_eq_or_imp, ← hexit, Except.ok.injEq,
        reduceCtorEq, false_or]
      exact ih (status_of_step hstep) (taken + 1)
    · rw [hstep] at hexit
      simp [← hexit]

/-! ## One form at a time -/

@[simp] theorem told_nil : told [] [] = [] := rfl

theorem told_cons (text : List Char) (texts : List (List Char)) (form : Form)
    (events : List Event) (taken : List (Form × List Event)) :
    told (text :: texts) ((form, events) :: taken) =
      .parsed (String.ofList text) form.render :: (events ++ told texts taken) := rfl

omit [Solver σ] in
theorem trace_record (htracing : options.tracing = true) (events : List Event) :
    (session.record options events).trace = session.trace ++ events := by
  rw [record, if_pos htracing]

/-- **A run over pieces does what their forms do**, from any two sessions that
differ in their traces only. -/
theorem runFrom_pieces (hlenient : options.strictLists = false) {gap : List Char}
    {pieces : List Piece} {offset taken : Nat} {session reference : Session σ}
    (hlaid : Piece.Laid pieces gap) (hfresh : session.fresh = reference.fresh)
    (hrunning : reference.status = .running) :
    let forms := Piece.forms false offset gap pieces
    let outcome := runFrom options session ⟨offset, Piece.charsAll pieces ++ gap⟩ taken
    outcome.fresh = (stepThrough options reference taken forms).fresh ∧
    ∃ texts rest,
      Spread offset texts ((heard options reference forms).map Prod.fst)
        (Piece.charsAll pieces ++ gap) rest ∧
      (outcome.ending = .ok .endOfInput → Blanks rest) ∧
      (options.tracing = true →
        outcome.session.trace = session.trace ++ told texts (heard options reference forms)) := by
  induction pieces generalizing offset taken session reference with
  | nil =>
    rw [Piece.Laid] at hlaid
    rw [Piece.charsAll, List.nil_append, Piece.forms, runFrom_blanks _ _ _ _ hlaid]
    refine ⟨by simp [stepThrough, Outcome.fresh, hfresh], [], gap, .done, fun _ => hlaid, ?_⟩
    exact fun _ => (List.append_nil _).symm
  | cons piece pieces ih =>
    cases piece with
    | stray before =>
      rw [Piece.Laid] at hlaid
      have hsession : session.status = .running :=
        (congrArg Session.status hfresh).trans hrunning
      have hmalformed (other : Session σ) (hother : other.status = .running) :=
        @step_of_takes σ options other _ _ (Reader.emptyAtom (offset + Text.units before)) _
          (.malformed hother rfl)
      rw [Piece.charsAll, Piece.chars, List.append_assoc, List.append_assoc, List.singleton_append,
        runFrom_stray options session offset taken _ hlaid.1 hsession, Piece.forms]
      simp only [stepThrough, heard, hmalformed reference hrunning, ownEvents,
        hmalformed reference.fresh hrunning]
      refine ⟨?_, [[]], ')' :: (Piece.charsAll pieces ++ gap),
        .next hlaid.1 rfl (by simp [Reader.emptyAtom, Form.start, Form.stop]) .done,
        (fun h => by cases h), fun htracing => ?_⟩
      · simp only [Outcome.fresh, fresh_record, hfresh]
        rfl
      · rw [trace_record htracing]
        rfl
    | form layout =>
      rw [Piece.Laid] at hlaid
      obtain ⟨before, c, cs, hbefore, hc, -, hchars, hspan⟩ := hlaid.1.exists_written
      have hclosed : options.strictLists = true → layout.openAt? offset = none := fun hs =>
        absurd (hlenient.symm.trans hs) Bool.false_ne_true
      have hstart : (layout.form offset).start = offset + Text.units before := (hspan offset).1
      have hstop : (layout.form offset).stop = offset + Text.units layout.chars := (hspan offset).2
      have hwritten : (layout.form offset).stop =
          (layout.form offset).start + Text.units (c :: cs) := by
        rw [hstart, hstop, hchars, Text.units_append, Nat.add_assoc]
      rw [Piece.charsAll, Piece.chars, List.append_assoc,
        runFrom_written options session offset taken hlaid.1 hclosed hbefore hc hchars, Piece.forms]
      generalize hevent :
        Event.parsed (String.ofList (c :: cs)) (layout.form offset).render = event
      -- both sessions take the form as a session does that has nothing in its trace
      have hrecorded := step_eq_fresh options (session.record options [event]) (layout.form offset)
      have hreference := step_eq_fresh options reference (layout.form offset)
      rw [fresh_record, hfresh] at hrecorded
      have hown : reference.ownEvents options (layout.form offset) =
          (reference.fresh.step options (layout.form offset)).1.trace := rfl
      rw [hrecorded]
      simp only [stepThrough, heard, hreference, hown]
      have hspread {texts : List (List Char)} {forms : List Form} {more rest : List Char}
          (h : Spread (layout.form offset).stop texts forms more rest) :
          Spread offset ((c :: cs) :: texts) (layout.form offset :: forms) (layout.chars ++ more)
            rest := by
        rw [hchars, List.append_assoc]
        exact .next hbefore hstart hwritten h
      have htrace (htracing : options.tracing = true) (events : List Event) :
          (session.record options [event]).trace ++ events =
            session.trace ++ (event :: events) := by
        rw [trace_record htracing, List.append_assoc, List.singleton_append]
      rcases hresult : reference.fresh.step options (layout.form offset) with
        ⟨session', fault | _ | _⟩
      · refine ⟨rfl, [c :: cs], _, hspread .done, (fun h => by cases h), fun htracing => ?_⟩
        rw [told_cons, hevent, told_nil, List.append_nil]
        exact htrace htracing _
      · -- the run goes on, and so do the forms
        have hstep : reference.step options (layout.form offset) =
            (session'.behind reference.trace, .ok .running) := by rw [hreference, hresult]
        obtain ⟨houtcome, texts, rest, hmore, hblanks, hevents⟩ :=
          @ih (offset + Text.units layout.chars) (taken + 1)
            (session'.behind (session.record options [event]).trace)
            (session'.behind reference.trace) hlaid.2 rfl (status_of_step hstep)
        refine ⟨houtcome, (c :: cs) :: texts, rest, hspread ?_, hblanks, fun htracing => ?_⟩
        · rw [hstop]
          exact hmore
        · rw [told_cons, hevent]
          refine (hevents htracing).trans ?_
          rw [behind, List.append_assoc]
          exact htrace htracing _
      · refine ⟨rfl, [c :: cs], _, hspread .done, (fun h => by cases h), fun htracing => ?_⟩
        rw [told_cons, hevent, told_nil, List.append_nil]
        exact htrace htracing _

/-- **A run is the fold of the steps over the forms of its script**, up to the
first that fails or ends the session, on every text. It makes of the solver,
prints and answers what the fold does; it counts the forms that were taken and
ends with `exit` just if one of them is headed so. Its trace tells of each form
the part of the text that it was read from, and behind that the events of the
form's own; the parts stand in order, with blanks only before and between them. -/
theorem run_eq_stepThrough (options : Options) (solver : σ) (script : List Char)
    (hlenient : options.strictLists = false) :
    let text := Text.withoutComments script
    let outcome := run options solver script
    let taken := heard options { solver } (SatScript.forms text)
    outcome.fresh = (stepThrough options { solver } 0 (SatScript.forms text)).fresh ∧
    outcome.forms = taken.length ∧
    taken.map Prod.fst = (SatScript.forms text).take outcome.forms ∧
    (outcome.ending = .ok .exit ↔
      ∃ form ∈ taken.map Prod.fst, form.headText? = some "exit") ∧
    ∃ texts rest,
      Spread 0 texts (taken.map Prod.fst) text rest ∧
      (outcome.ending = .ok .endOfInput → Blanks rest) ∧
      (options.tracing = true → outcome.session.trace = told texts taken) := by
  intro text outcome taken
  obtain ⟨pieces, gap, htext, hlaid⟩ := exists_pieces text
  have hforms : Piece.forms false 0 gap pieces = SatScript.forms text := by
    rw [htext, forms_pieces hlaid]
  obtain ⟨houtcome, texts, rest, hspread, hblanks, htrace⟩ :=
    @runFrom_pieces σ options _ hlenient gap pieces 0 0 { solver } { solver } hlaid rfl rfl
  rw [← htext] at houtcome hspread hblanks htrace
  rw [hforms] at houtcome hspread htrace
  obtain ⟨htake, hcount⟩ := forms_stepThrough options { solver } 0
    (SatScript.forms text)
  have hcounted : outcome.fresh.forms = taken.length := by
    rw [show outcome.fresh = _ from houtcome]
    exact hcount.trans (Nat.zero_add _)
  refine ⟨houtcome, hcounted, ?_, ?_, texts, rest, hspread, hblanks, htrace⟩
  · rw [show outcome.forms = taken.length from hcounted]
    exact htake
  · show outcome.fresh.ending = _ ↔ _
    rw [show outcome.fresh = _ from houtcome]
    exact ending_stepThrough rfl 0 _

/-- A parenthesis that closes nothing ends the run, although the forms go on
behind it, to an `exit`. -/
theorem run_eq_stepThrough_stray :
    let outcome := run {} ({ answers := ⟨[]⟩ } : Recorder) "(check-sat) )(exit)".toList
    ({} : Options).strictLists = false ∧
    (SatScript.forms "(check-sat) )(exit)".toList).map Form.headText? =
      [some "check-sat", none, some "exit"] ∧
    outcome.forms = 2 ∧ outcome.ending ≠ .ok .exit ∧ outcome.session.lines = ["unknown"] := by
  intro outcome
  have hall : SatScript.forms "(check-sat) )(exit)".toList =
      [.list [.atom "check-sat" 1 10] 0 11, .atom "" 12 12, .list [.atom "exit" 14 18] 13 19] := by
    cbv
  have htext : Text.withoutComments "(check-sat) )(exit)".toList =
      "(check-sat) )(exit)".toList := by decide
  obtain ⟨hfresh, hforms, -, hexit, -⟩ :=
    run_eq_stepThrough {} ({ answers := ⟨[]⟩ } : Recorder) "(check-sat) )(exit)".toList rfl
  rw [htext, hall] at hfresh hforms hexit
  refine ⟨rfl, by rw [hall]; rfl, hforms, ?_, congrArg (fun o => o.session.lines) hfresh⟩
  rw [Ne, show outcome.ending = .ok .exit ↔ _ from hexit]
  decide

end Session

end SatScript
