import SatScript.Proofs.Layout.Unclosed
import SatScript.Proofs.Session.Running
import SatScript.Proofs.Term.FreeNames
/-!
# SatScript — options that are relaxed

Two options say what is wrong with a script: whether lists may be left open at its
end, and whether decimals other than integers are numerals. One that is relaxed takes
faults away and changes nothing else. `Lifts` is the relation between the two ways to
go on that this comes to: they are the same unless the first fails with a fault that
the second does not know. It holds of the elaboration of a form (`lifts_ofForm`), of
a step (`lifts_step`) and of a run (`lifts_runFrom`), each from the one before it.
`run_relaxed` says what that means for a whole script.
-/

namespace SatScript

/-! ## What options reject -/

/-- The second options are the first, some of them relaxed: lists may be left open,
and decimals other than integers are numerals. -/
structure Options.Relaxes (options relaxed : Options) : Prop where
  strict : relaxed.strictLists = true → options.strictLists = true
  fractional : options.fractionalNumerals = true → relaxed.fractionalNumerals = true
  models : relaxed.produceModels = options.produceModels
  tracing : relaxed.tracing = options.tracing

/-- Options relax themselves. -/
theorem Options.Relaxes.refl (options : Options) : options.Relaxes options := ⟨id, id, rfl, rfl⟩

/-- Whether this is wrong under the options. They are asked about open lists and about
numerals; everything else is wrong whatever they are. -/
def Options.rejects (options : Options) : Cause → Bool
  | .unterminated _ => options.strictLists
  | .badNumeral text => (Numeral.canonical? options.fractionalNumerals text).isNone
  | _ => true

/-- The fault is none under the options. -/
def Options.Accepts (options : Options) (fault : Fault) : Prop :=
  options.rejects fault.cause = false

/-! ## Faults that are lifted -/

/-- Of two ways to go on the second knows no fault of some kind, and it is the same as
the first unless the first comes to such a fault. -/
structure Lifts {ε α γ : Type} (fails : ε → Prop) (result : γ → Except ε α) (before after : γ) :
    Prop where
  avoids : Avoids fails (result after)
  same : Avoids fails (result before) → after = before

namespace Lifts

variable {ε α γ : Type} {fails : ε → Prop} {result : γ → Except ε α} {before after : γ}

/-- What comes to no such fault has none to be lifted. -/
theorem refl (h : Avoids fails (result before)) : Lifts fails result before before :=
  ⟨h, fun _ => rfl⟩

/-- Anything without such a fault may stand for what comes to one. -/
theorem of_fails {fault : ε} (hbefore : result before = .error fault) (h : fails fault)
    (hafter : Avoids fails (result after)) : Lifts fails result before after :=
  ⟨hafter, fun havoids => absurd h (havoids fault hbefore)⟩

/-- **The two are the same exactly if the first comes to no such fault.** -/
theorem eq_iff (h : Lifts fails result before after) :
    after = before ↔ Avoids fails (result before) :=
  ⟨fun heq => heq ▸ h.avoids, h.same⟩

/-- Faults are lifted from two steps one after the other. -/
theorem bind {α β : Type} {fails : Fault → Prop} {before after : Traced α}
    {next next' : α → Traced β} (h : Lifts fails Traced.result before after)
    (hnext : ∀ value, Lifts fails Traced.result (next value) (next' value)) :
    Lifts fails Traced.result (before >>= next) (after >>= next') := by
  constructor
  · rw [Traced.result_bind]
    exact h.avoids.bind fun value _ => (hnext value).avoids
  · intro havoids
    rw [Traced.result_bind] at havoids
    rw [h.same havoids.of_bind]
    refine Traced.bind_congr fun value hvalue => (hnext value).same ?_
    rw [hvalue] at havoids
    exact havoids

end Lifts

/-! ## Numerals and expressions -/

/-- What is a numeral stays the same one if more decimals are numerals. -/
theorem Numeral.canonical?_relaxed {fractional fractional' : Bool} {text numeral : String}
    (hfractional : fractional = true → fractional' = true)
    (h : canonical? fractional text = some numeral) :
    canonical? fractional' text = some numeral := by
  rw [canonical?, value?] at h ⊢
  simp only at h ⊢
  split at h
  · rename_i hdigits
    rw [if_pos hdigits]
    exact h
  · rename_i hdigits
    rw [if_neg hdigits]
    split at h
    · rename_i hbefore
      rw [if_pos (hfractional hbefore)]
      exact h
    · cases h

namespace Expr

variable {options relaxed : Options}

/-- A fault that the options do not decide on is not lifted. -/
theorem lifts_fail {α : Type} {cause : Cause} {span : Span} (h : relaxed.rejects cause = true) :
    Lifts relaxed.Accepts Traced.result (Traced.fail (α := α) (.found cause span))
      (Traced.fail (.found cause span)) :=
  .refl (.error (ne_true_of_eq_false · h))

theorem lifts_ok {α : Type} (value : α) :
    Lifts relaxed.Accepts Traced.result (Traced.ok value) (Traced.ok value) := .refl (.ok value)

theorem lifts_ofAtom (h : options.Relaxes relaxed) (scope : Scope BaseSort) (text : String)
    (span : Span) :
    Lifts relaxed.Accepts Traced.result ⟨[], ofAtom options.fractionalNumerals scope text span⟩
      ⟨[], ofAtom relaxed.fractionalNumerals scope text span⟩ := by
  have hknown (expr : Expr) : Lifts relaxed.Accepts Traced.result ⟨[], .ok expr⟩ ⟨[], .ok expr⟩ :=
    lifts_ok expr
  unfold ofAtom
  split
  · cases hnumeral : Numeral.canonical? options.fractionalNumerals text with
    | some numeral =>
      rw [Numeral.canonical?_relaxed h.fractional hnumeral]
      exact hknown _
    | none =>
      cases hrelaxed : Numeral.canonical? relaxed.fractionalNumerals text with
      | none => exact lifts_fail (congrArg Option.isNone hrelaxed)
      | some numeral =>
        -- the one fault of an elaboration that is lifted
        exact .of_fails rfl (congrArg Option.isNone hrelaxed) (.ok _)
  split
  · exact hknown _
  split
  · exact lifts_fail rfl
  · exact hknown _

mutual

/-- **A form is elaborated in the same way under relaxed options**, unless that failed
for a numeral that they take. -/
theorem lifts_ofForm (h : options.Relaxes relaxed) : ∀ (form : Form) (scope : Scope BaseSort),
    Lifts relaxed.Accepts Traced.result (ofForm options.fractionalNumerals scope form)
      (ofForm relaxed.fractionalNumerals scope form)
  | .atom text start stop, scope => lifts_ofAtom h scope text ⟨start, stop⟩
  | .list [] _ _, _ => lifts_fail rfl
  | .list (.list _ _ _ :: _) _ _, _ => lifts_fail rfl
  | .list (.atom head _ _ :: rest) _ _, scope => by
    rw [ofForm, ofForm]
    split
    · exact lifts_ofLet h rest scope
    · refine (lifts_ofForms h rest scope).bind fun args => ?_
      split
      · exact lifts_ok _
      · exact lifts_fail rfl

theorem lifts_ofForms (h : options.Relaxes relaxed) :
    ∀ (forms : List Form) (scope : Scope BaseSort),
    Lifts relaxed.Accepts Traced.result (ofForms options.fractionalNumerals scope forms)
      (ofForms relaxed.fractionalNumerals scope forms)
  | [], _ => lifts_ok _
  | form :: forms, scope => by
    rw [ofForms, ofForms]
    exact (lifts_ofForm h form scope).bind fun _ =>
      (lifts_ofForms h forms scope).bind fun _ => lifts_ok _

theorem lifts_ofBindings (h : options.Relaxes relaxed) :
    ∀ (bindings : List Form) (scope : Scope BaseSort),
    Lifts relaxed.Accepts Traced.result (ofBindings options.fractionalNumerals scope bindings)
      (ofBindings relaxed.fractionalNumerals scope bindings)
  | [], _ => lifts_ok _
  | .list [.atom _ _ _, value] _ _ :: bindings, scope => by
    rw [ofBindings, ofBindings]
    exact (lifts_ofForm h value scope).bind fun _ =>
      Lifts.bind (.refl (.ok _)) fun _ =>
        (lifts_ofBindings h bindings scope).bind fun _ => lifts_ok _
  | .atom _ _ _ :: _, _ => lifts_fail rfl
  | .list [] _ _ :: _, _ => lifts_fail rfl
  | .list [.atom _ _ _] _ _ :: _, _ => lifts_fail rfl
  | .list [.list _ _ _] _ _ :: _, _ => lifts_fail rfl
  | .list (.list _ _ _ :: _ :: _) _ _ :: _, _ => lifts_fail rfl
  | .list (.atom _ _ _ :: _ :: _ :: _) _ _ :: _, _ => lifts_fail rfl

theorem lifts_ofLet (h : options.Relaxes relaxed) :
    ∀ (rest : List Form) (scope : Scope BaseSort) {count : Nat} {span : Span},
    Lifts relaxed.Accepts Traced.result (ofLet options.fractionalNumerals scope count span rest)
      (ofLet relaxed.fractionalNumerals scope count span rest)
  | [.list bindings _ _, body], scope, _, _ => by
    rw [ofLet, ofLet]
    exact (lifts_ofBindings h bindings scope).bind fun _ =>
      (lifts_ofForm h body _).bind fun _ => lifts_ok _
  | [.atom _ _ _, _], _, _, _ => lifts_fail rfl
  | [], _, _, _ => lifts_fail rfl
  | [.atom _ _ _], _, _, _ => lifts_fail rfl
  | [.list _ _ _], _, _, _ => lifts_fail rfl
  | .atom _ _ _ :: _ :: _ :: _, _, _, _ => lifts_fail rfl
  | .list _ _ _ :: _ :: _ :: _, _, _, _ => lifts_fail rfl

end

end Expr

/-! ## Steps -/

/-- What may be wrong with a command is wrong under all options. -/
theorem Options.rejects_of_isOfCommand (options : Options) {cause : Cause}
    (h : cause.isOfCommand = true) : options.rejects cause = true := by
  cases cause <;> first | rfl | cases h

namespace Session

variable {σ : Type} {options relaxed : Options}

/-- The same events are recorded. -/
theorem record_relaxed (h : options.Relaxes relaxed) (session : Session σ) (events : List Event) :
    session.record relaxed events = session.record options events := by
  rw [record, record, h.tracing]

variable [Solver σ]

theorem declare_relaxed (h : options.Relaxes relaxed) (session : Session σ) (name : String)
    (sort : BaseSort) : session.declare relaxed name sort = session.declare options name sort := by
  rw [declare, declare, record_relaxed h]

theorem check_relaxed (h : options.Relaxes relaxed) (session : Session σ) :
    session.check relaxed = session.check options := by
  simp only [check, h.models, record_relaxed h]

/-- **A session answers only what its options reject.** -/
theorem avoids_step (options : Options) (session : Session σ) (form : Form) :
    Avoids options.Accepts (session.step options form).2 := by
  have hexpr (body : Form) := (Expr.lifts_ofForm (.refl options) body session.scope).avoids
  have htakes := takes_step options session form
  generalize (session.step options form).1 = session', (session.step options form).2 = result
    at htakes
  cases htakes with
  | ended => exact .ok _
  | malformed _ hcommand =>
    have hrejects := options.rejects_of_isOfCommand (Command.isOfCommand_of_ofForm hcommand)
    exact .error (ne_true_of_eq_false · hrejects)
  | ignored => exact .ok _
  | declared => exact .ok _
  | @meaningless body fault _ _ helaborated => exact .error (hexpr body fault helaborated)
  | refused => exact .error fun haccepts => nomatch haccepts
  | asserted => exact .ok _
  | checked => exact .ok _
  | exited => exact .ok _

/-- **A step is the same under relaxed options**, unless it comes to a fault that they
do not know. -/
theorem lifts_step (h : options.Relaxes relaxed) (session : Session σ) (form : Form) :
    Lifts relaxed.Accepts Prod.snd (session.step options form) (session.step relaxed form) := by
  refine ⟨avoids_step relaxed session form, fun havoids => ?_⟩
  suffices htakes : Takes relaxed session form (session.step options form).1
      (session.step options form).2 from step_of_takes htakes
  have hrecord := record_relaxed h session
  have hexpr (body : Form) := (Expr.lifts_ofForm h body session.scope).same
  have htakes := takes_step options session form
  generalize (session.step options form).1 = session', (session.step options form).2 = result
    at htakes havoids ⊢
  cases htakes with
  | ended hended => exact .ended hended
  | malformed hrunning hcommand => exact .malformed hrunning hcommand
  | ignored hrunning hcommand =>
    rw [← hrecord]
    exact .ignored hrunning hcommand
  | declared hrunning hcommand =>
    rw [← declare_relaxed h]
    exact .declared hrunning hcommand
  | @meaningless body fault hrunning hcommand helaborated =>
    -- a fault that the relaxed options know as well
    have hsame := hexpr body (helaborated ▸ .error (havoids fault rfl))
    rw [← hrecord, ← hsame]
    exact .meaningless hrunning hcommand (hsame ▸ helaborated)
  | @refused body expr fault hrunning hcommand helaborated hrefused =>
    have hsame := hexpr body (helaborated ▸ .ok expr)
    rw [← hrecord, ← hsame]
    exact .refused hrunning hcommand (hsame ▸ helaborated) hrefused
  | @asserted body expr solver hrunning hcommand helaborated hasserted =>
    have hsame := hexpr body (helaborated ▸ .ok expr)
    rw [← hrecord, ← hsame]
    exact .asserted hrunning hcommand (hsame ▸ helaborated) hasserted
  | checked hrunning hcommand =>
    rw [← check_relaxed h]
    exact .checked hrunning hcommand
  | exited hrunning hcommand => exact .exited hrunning hcommand

/-- A form that is read is taken in the same way. -/
theorem lifts_take (h : options.Relaxes relaxed) (session : Session σ) (cursor : Cursor)
    (reading : Reading) :
    Lifts relaxed.Accepts Prod.snd (session.take options cursor reading)
      (session.take relaxed cursor reading) := by
  rw [take, take, record_relaxed h]
  exact lifts_step h _ reading.form

/-! ## Runs -/

/-- The reader reads the same under relaxed options, unless a list is left open that
they do not reject. -/
theorem cases_readOne_relaxed (h : options.Relaxes relaxed) (cursor : Cursor) :
    cursor.readOne relaxed.strictLists = cursor.readOne options.strictLists ∨
      relaxed.strictLists = false ∧
        ∃ unclosed, cursor.readOne options.strictLists = .error unclosed := by
  obtain ⟨reading, hlenient, hstrict⟩ :=
    Reader.readFrom_lenient Reader.State.initial cursor.offset cursor.rest
  cases hoptions : options.strictLists with
  | false =>
    have hrelaxed : relaxed.strictLists = false := by
      rw [← Bool.not_eq_true]
      intro hrelaxed
      rw [h.strict hrelaxed] at hoptions
      cases hoptions
    exact .inl (by rw [hrelaxed])
  | true =>
    cases hrelaxed : relaxed.strictLists with
    | true => exact .inl rfl
    | false =>
      rcases hstrict with hread | hopen
      · exact .inl (hlenient.trans hread.symm)
      · exact .inr ⟨rfl, hopen⟩

/-- A list is reported only in the strict mode. -/
theorem strictLists_of_readOne_error {cursor : Cursor} {unclosed : Unclosed}
    (h : cursor.readOne options.strictLists = .error unclosed) : options.strictLists = true := by
  obtain ⟨reading, hlenient, -⟩ :=
    Reader.readFrom_lenient Reader.State.initial cursor.offset cursor.rest
  rw [← Bool.not_eq_false]
  intro hoptions
  rw [hoptions, Cursor.readOne, hlenient] at h
  cases h

/-- **A run ends only with what its options reject.** -/
theorem avoids_runFrom_rejected (options : Options) (session : Session σ) (cursor : Cursor)
    (forms : Nat) : Avoids options.Accepts (runFrom options session cursor forms).ending := by
  induction hlength : cursor.rest.length using Nat.strongRecOn
    generalizing session cursor forms with
  | ind length ih =>
    by_cases hrest : cursor.skipBlanks.rest = []
    · rw [runFrom_of_rest_eq_nil _ _ _ hrest]
      exact .ok _
    cases hone : cursor.readOne options.strictLists with
    | error unclosed =>
      rw [runFrom_of_readOne_error _ _ _ hrest hone]
      exact .error (ne_true_of_eq_false · (strictLists_of_readOne_error hone))
    | ok reading =>
      rw [runFrom_of_readOne _ _ _ hrest hone]
      have havoids := avoids_step options
        (session.record options [readingEvent cursor.skipBlanks reading]) reading.form
      rw [← take] at havoids
      rcases htake : session.take options cursor.skipBlanks reading with ⟨next, fault | _ | _⟩
      · rw [htake] at havoids
        exact .error (havoids fault rfl)
      · exact ih _ (hlength ▸ length_next_lt_of_readOne options session hrest hone htake) next
          reading.next (forms + 1) rfl
      · exact .ok _

/-- **A run from any position is the same under relaxed options**, unless it ends with a
fault that they do not know. -/
theorem lifts_runFrom (h : options.Relaxes relaxed) (session : Session σ) (cursor : Cursor)
    (forms : Nat) :
    Lifts relaxed.Accepts Outcome.ending (runFrom options session cursor forms)
      (runFrom relaxed session cursor forms) := by
  refine ⟨avoids_runFrom_rejected relaxed session cursor forms, fun havoids => ?_⟩
  induction hlength : cursor.rest.length using Nat.strongRecOn
    generalizing session cursor forms with
  | ind length ih =>
    by_cases hrest : cursor.skipBlanks.rest = []
    · rw [runFrom_of_rest_eq_nil _ _ _ hrest, runFrom_of_rest_eq_nil _ _ _ hrest]
    cases hone : cursor.readOne options.strictLists with
    | error unclosed =>
      rw [runFrom_of_readOne_error _ _ _ hrest hone] at havoids ⊢
      rcases cases_readOne_relaxed h cursor with hsame | ⟨hrelaxed, -⟩
      · rw [runFrom_of_readOne_error _ _ _ hrest (hsame.trans hone)]
      · exact absurd hrelaxed (havoids _ rfl)
    | ok reading =>
      have hsame : cursor.readOne relaxed.strictLists = .ok reading := by
        rcases cases_readOne_relaxed h cursor with hsame | ⟨-, unclosed, herror⟩
        · exact hsame.trans hone
        · rw [hone] at herror
          cases herror
      rw [runFrom_of_readOne _ _ _ hrest hone] at havoids ⊢
      rw [runFrom_of_readOne _ _ _ hrest hsame]
      have hlifts := lifts_take h session cursor.skipBlanks reading
      rcases htake : session.take options cursor.skipBlanks reading with ⟨next, fault | _ | _⟩
      all_goals rw [htake] at hlifts havoids
      · rw [hlifts.same (.error (havoids fault rfl))]
        rfl
      · rw [hlifts.same (.ok _)]
        exact ih _ (hlength ▸ length_next_lt_of_readOne options session hrest hone htake) next
          reading.next (forms + 1) havoids rfl
      · rw [hlifts.same (.ok _)]
        rfl

/-- **Relaxing options changes no run that goes well**: where a script runs without
fault, it does so under relaxed options, with the same solver behind it, verdicts,
lines, trace, number of forms and ending. And of the runs that end with a fault it
changes just those whose fault is none under the relaxed options, a list left open or a
numeral that they take. -/
theorem run_relaxed (h : options.Relaxes relaxed) (solver : σ) (script : List Char) :
    (∀ ending, (run options solver script).ending = .ok ending →
      run relaxed solver script = run options solver script) ∧
    (run relaxed solver script = run options solver script ↔
      ∀ fault, (run options solver script).ending = .error fault →
        relaxed.rejects fault.cause = true) := by
  have hlifts := lifts_runFrom h { solver } (Cursor.ofText (Text.withoutComments script)) 0
  rw [← run, ← run] at hlifts
  constructor
  · intro ending hending
    exact hlifts.same (hending ▸ .ok ending)
  · rw [hlifts.eq_iff]
    exact forall₂_congr fun fault _ => iff_of_eq (Bool.not_eq_false _)

/-- Open lists are no longer reported and all decimals are numerals: a script without
either runs as before. -/
theorem run_relaxed_integer :
    let options : Options := { strictLists := true, fractionalNumerals := false }
    let relaxed : Options := {}
    let solver : Recorder := { answers := ⟨[]⟩ }
    let script := "(assert (< 1.0 02))(check-sat)".toList
    options.Relaxes relaxed ∧ (run options solver script).ending = .ok .endOfInput ∧
      run relaxed solver script = run options solver script := by
  intro options relaxed solver script
  have hrelaxes : options.Relaxes relaxed := ⟨nofun, nofun, rfl, rfl⟩
  have hending : (run options solver script).ending = .ok .endOfInput := by
    have htext : Text.withoutComments script = "(assert (< 1.0 02))(check-sat)".toList := by decide
    have hassert : (Cursor.ofText "(assert (< 1.0 02))(check-sat)".toList).readOne true =
        .ok ⟨.list [.atom "assert" 1 7,
            .list [.atom "<" 9 10, .atom "1.0" 11 14, .atom "02" 15 17] 8 18] 0 19,
          ⟨19, "(check-sat)".toList⟩⟩ := by cbv
    have hexpr : (Expr.ofForm false Scope.empty
        (.list [.atom "<" 9 10, .atom "1.0" 11 14, .atom "02" 15 17] 8 18)).result =
          .ok (.node "<" .bool [.leaf "1" .real, .leaf "2" .real]) := by rfl
    have hcheck : Cursor.readOne true ⟨19, "(check-sat)".toList⟩ =
        .ok ⟨.list [.atom "check-sat" 20 29] 19 30, ⟨30, []⟩⟩ := by cbv
    rw [run, htext, runFrom_of_readOne options _ _ (by decide) hassert, take,
      step_of_takes (.asserted rfl rfl hexpr rfl), proceed,
      runFrom_of_readOne options _ _ (by decide) hcheck, take,
      step_of_takes (.checked rfl rfl), proceed, runFrom_of_rest_eq_nil options _ _ rfl]
  obtain ⟨hok, -⟩ := run_relaxed hrelaxes solver script
  exact ⟨hrelaxes, hending, hok .endOfInput hending⟩

end Session

end SatScript
