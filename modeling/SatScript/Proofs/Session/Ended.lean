import SatScript.Proofs.Session.Running
import SatScript.Proofs.Text.Comment
/-!
# SatScript — what stands behind the end of a run

A run that reaches `exit` does not look at what stands behind it, whatever
that is (`run_append`). Comments are deleted from the whole text first, but
what a character becomes is settled by those before it; the run then reads
form by form. A reader that reports open lists reads a list only up to the
parenthesis that closes it (`readFrom_append`), and no atom is a command.
That open lists are reported is needed: where they are closed at the end
of the text, more text may go on in a list that `exit` heads.
-/

namespace SatScript

namespace Cursor

/-- The position in a longer text. -/
def followedBy (cursor : Cursor) (more : List Char) : Cursor :=
  ⟨cursor.offset, cursor.rest ++ more⟩

/-- Going past blanks stops where it did, unless it came to the end of the text. -/
theorem skipFrom_append {offset : Nat} {cs : List Char} (h : (skipFrom offset cs).rest ≠ [])
    (more : List Char) : skipFrom offset (cs ++ more) = (skipFrom offset cs).followedBy more := by
  induction cs generalizing offset with
  | nil => exact absurd rfl h
  | cons c cs ih =>
    rw [List.cons_append, skipFrom, skipFrom]
    rw [skipFrom] at h
    split at h
    case isTrue hblank => rw [if_pos hblank, if_pos hblank, ih h]
    case isFalse hblank =>
      rw [if_neg hblank, if_neg hblank]
      rfl

/-- The text up to a later position is not touched by what follows the text. -/
theorem upTo_followedBy {cursor next : Cursor} (more : List Char) :
    (cursor.followedBy more).upTo (next.followedBy more) = cursor.upTo next := by
  simp only [upTo, followedBy, List.length_append]
  rw [Nat.add_sub_add_right, List.take_append_of_le_length (Nat.sub_le _ _)]

end Cursor

/-! ## Reading a list -/

/-- **A list is read up to its closing parenthesis**, if open lists are reported:
what follows the text that it was read from is left. -/
theorem Reader.readFrom_append {state : State} {offset : Nat} {cs : List Char} {reading : Reading}
    (h : readFrom true state offset cs = .ok reading)
    (hlist : ∀ text start stop, reading.form ≠ .atom text start stop) (more : List Char) :
    readFrom true state offset (cs ++ more) =
      .ok ⟨reading.form, reading.next.followedBy more⟩ := by
  induction cs generalizing state offset with
  | nil =>
    -- at the end of a text only an atom is complete
    rw [readFrom] at h
    unfold finish at h
    split at h
    · cases h
    · rename_i form hform
      cases h
      split at hform
      · rename_i atom _ hpending
        cases hform
        unfold pending at hpending
        split at hpending <;> cases hpending <;> exact absurd rfl (hlist _ _ _)
      · cases hform
        exact absurd rfl (hlist "" offset offset)
      · cases hform
  | cons c cs ih =>
    rw [readFrom] at h
    rw [List.cons_append, readFrom]
    cases hstep : step state offset c with
    | more state' =>
      rw [hstep] at h
      exact ih h
    | done form taken =>
      rw [hstep] at h
      cases taken with
      | false =>
        cases h
        rfl
      | true =>
        cases h
        rfl

namespace Session

variable {σ : Type} [Solver σ] {options : Options} {session : Session σ}

/-- A run that ends with an exit takes a form. -/
theorem exists_readOne_of_exit {cursor : Cursor} {forms : Nat}
    (h : (runFrom options session cursor forms).ending = .ok .exit) :
    cursor.skipBlanks.rest ≠ [] ∧
      ∃ reading, cursor.readOne options.strictLists = .ok reading := by
  rw [runFrom] at h
  split at h
  · cases h
  · rename_i heq
    rw [← Cursor.readOne_skipBlanks, heq]
    refine ⟨List.cons_ne_nil _ _, ?_⟩
    split at h
    · cases h
    · exact ⟨_, ‹_›⟩

/-- The form that it takes is a list. -/
theorem ne_atom_of_exit {next : Cursor} {forms : Nat} {form : Form}
    (hrunning : session.status = .running)
    (h : (proceed options next forms (session.step options form)).ending = .ok .exit)
    (text : String) (start stop : Nat) : form ≠ .atom text start stop := by
  rintro rfl
  obtain ⟨fault, hfault⟩ := Command.ofForm_atom text start stop
  rw [step_of_takes (.malformed hrunning hfault)] at h
  cases h

/-- **What follows an exit is not looked at**, from any position on. -/
theorem runFrom_append (hstrict : options.strictLists = true) {cursor : Cursor} {forms : Nat}
    (hrunning : session.status = .running)
    (hexit : (runFrom options session cursor forms).ending = .ok .exit) (more : List Char) :
    runFrom options session (cursor.followedBy more) forms =
      runFrom options session cursor forms := by
  induction hlength : cursor.rest.length using Nat.strongRecOn
    generalizing session cursor forms with
  | ind length ih =>
    obtain ⟨hrest, reading, hone⟩ := exists_readOne_of_exit hexit
    rw [runFrom_of_readOne _ _ _ hrest hone, take] at hexit
    have hstatus (events : List Event) :
        (session.record options events).status = .running :=
      (status_record events).trans hrunning
    have hlist := ne_atom_of_exit (hstatus _) hexit
    -- with more text behind it the same form is read, from the same part of the text
    have hskip : (cursor.followedBy more).skipBlanks = cursor.skipBlanks.followedBy more :=
      Cursor.skipFrom_append hrest more
    have hone' : (cursor.followedBy more).readOne options.strictLists =
        .ok ⟨reading.form, reading.next.followedBy more⟩ := by
      rw [hstrict] at hone ⊢
      exact Reader.readFrom_append hone hlist more
    have hevent : readingEvent (cursor.skipBlanks.followedBy more)
        ⟨reading.form, reading.next.followedBy more⟩ =
          readingEvent cursor.skipBlanks reading := by
      rw [readingEvent, readingEvent, Cursor.upTo_followedBy]
    have hrest' : (cursor.followedBy more).skipBlanks.rest ≠ [] := by
      rw [hskip]
      exact List.append_ne_nil_of_left_ne_nil hrest more
    rw [runFrom_of_readOne _ _ _ hrest' hone', runFrom_of_readOne _ _ _ hrest hone, hskip, take,
      take, hevent]
    rcases hstep : (session.record options [readingEvent cursor.skipBlanks reading]).step options
      reading.form with ⟨session', fault | _ | _⟩
    · rfl
    · rw [hstep] at hexit
      have hless := length_next_lt_of_readOne options session hrest hone hstep
      exact ih _ (hlength ▸ hless) (status_of_step hstep) hexit rfl
    · rfl

/-- **A run that reaches `exit` does not depend on what follows**: whatever is
written behind the script, also what is no script at all, the solver, the
verdicts, the lines, the trace, the number of forms and the ending are the
same. -/
theorem run_append (options : Options) (solver : σ) (script more : List Char)
    (hstrict : options.strictLists = true)
    (hexit : (run options solver script).ending = .ok .exit) :
    run options solver (script ++ more) = run options solver script := by
  rw [run, Text.withoutComments, Text.withoutFrom_append]
  exact runFrom_append hstrict rfl hexit _

/-- Behind an exit stand a parenthesis that closes nothing, open lists and a
command that is none. -/
theorem run_append_malformed :
    let options : Options := { strictLists := true }
    let solver : Recorder := { answers := ⟨[]⟩ }
    let script := "(check-sat)(exit);".toList
    let more := " comment\n) (((pop".toList
    options.strictLists = true ∧ (run options solver script).ending = .ok .exit ∧
      run options solver (script ++ more) = run options solver script := by
  intro options solver script more
  have hexit : (run options solver script).ending = .ok .exit := by
    have htext : Text.withoutComments script = "(check-sat)(exit)".toList := by decide
    have hcheck : (Cursor.ofText "(check-sat)(exit)".toList).readOne true =
        .ok ⟨.list [.atom "check-sat" 1 10] 0 11, ⟨11, "(exit)".toList⟩⟩ := by cbv
    have hend : Cursor.readOne true ⟨11, "(exit)".toList⟩ =
        .ok ⟨.list [.atom "exit" 12 16] 11 17, ⟨17, []⟩⟩ := by cbv
    rw [run, htext, runFrom_of_readOne options _ _ (by decide) hcheck]
    change (runFrom options _ ⟨11, "(exit)".toList⟩ 1).ending = _
    rw [runFrom_of_readOne options _ _ (by decide) hend]
    rfl
  exact ⟨rfl, hexit, run_append options solver script more rfl hexit⟩

end Session

end SatScript
