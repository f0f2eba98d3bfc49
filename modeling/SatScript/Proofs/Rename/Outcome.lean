import SatScript.Proofs.Rename.Performed
import SatScript.Proofs.Rename.Replacement
/-!
# SatScript — runs after a renaming

A script runs after a renaming as it ran before, against a solver that
answers from a list (`rename_keeps_runs`): the runs end alike behind
as many forms, with the same verdicts and lines, and the solver was asked
the same under the new names. Like the replacement of atoms this holds
where the new name is separate from what follows the references; where two
atoms run together, a run may come to something else
(`run_of_runTogether`).
-/

namespace SatScript

/-- What runs come to before and after a renaming. -/
structure OutcomeAlike (free : String → String) (names : List String)
    (before after : Outcome Recorder) : Prop where
  calls : after.session.solver.calls = (Call.renameAll free names before.session.solver.calls).1
  status : after.session.status = before.session.status
  verdicts : after.session.verdicts = before.session.verdicts
  lines : after.session.lines = before.session.lines
  forms : after.forms = before.forms
  ending : Agree (· = ·) before.ending after.ending

/-- The code of the fault that ends a run. -/
def Outcome.code? {σ : Type} (outcome : Outcome σ) : Option Code :=
  match outcome.ending with
  | .ok _ => none
  | .error fault => some fault.cause.code

/-- Runs that come to the same end with the same code, or with none. -/
theorem OutcomeAlike.code?_eq {free : String → String} {names : List String}
    {before after : Outcome Recorder} (h : OutcomeAlike free names before after) :
    after.code? = before.code? := by
  have hending := h.ending
  rw [Outcome.code?, Outcome.code?]
  generalize before.ending = ending at hending
  generalize after.ending = ending' at hending
  cases hending with
  | ok _ => rfl
  | error hcode => exact congrArg some hcode.symm

/-- Whether a layout leaves a list open has nothing to do with where it
stands. -/
theorem Layout.isSome_openAt? (layout : Layout) (offset offset' : Nat) :
    (layout.openAt? offset).isSome = (layout.openAt? offset').isSome := by
  cases layout with
  | atom before text => rfl
  | list before items gap closed => cases closed <;> simp [openAt?]

section

open Renaming Occurrence

variable {source : String} {globals globals' : List String} {target : Target} {newName : String}
variable {edits : List Edit} {mark : Nat → Bool} {move : Nat → Nat} {leaves : List Leaf}
variable {names left : List String} {session session' : Session Recorder}
variable {options : Options}

theorem Session.Renamed.outcome {free : String → String} {ending ending' : Except Fault Ending}
    (h : session.Renamed globals globals' free names left session') (forms : Nat)
    (hending : Agree (· = ·) ending ending') :
    OutcomeAlike free names ⟨session, forms, ending⟩ ⟨session', forms, ending'⟩ where
  calls := (congrArg Prod.fst h.calls).symm
  status := h.status
  verdicts := h.verdicts
  lines := h.lines
  forms := rfl
  ending := hending

/-- **A laid out script runs after a renaming as it ran before.** -/
theorem run_relabel (hordinary : Ordinary target.name newName)
    (hnames : target.name ≠ "" ∧ newName ≠ "") (hnumeral : Numeral.startsNumeral newName = false)
    (hinjective : ∀ name ∈ globals, ∀ other ∈ globals,
      freeName target newName other = freeName target newName name → other = name)
    (hnamed : NamedAlike target source globals leaves) {gap : List Char} {pieces : List Piece}
    {offset offset' forms : Nat} (hlaid : Piece.Laid pieces gap)
    (hlaid' : Piece.Laid (Piece.replace mark newName.toList offset pieces) gap)
    (hforms : Piece.forms false offset' gap (Piece.replace mark newName.toList offset pieces) =
      Form.relabelAll mark newName move (Piece.forms false offset gap pieces))
    (hformed : ∀ form ∈ Piece.forms false offset gap pieces,
      Formed globals globals' target newName edits mark move source leaves form)
    (h : session.Renamed globals globals' (freeName target newName) names
      (binderNames target newName source
        (inCommands source globals (Piece.forms false offset gap pieces))) session')
    (hrunning : session.status = .running) :
    OutcomeAlike (freeName target newName) names
      (session.runFrom options ⟨offset, Piece.charsAll pieces ++ gap⟩ forms)
      (session'.runFrom options
        ⟨offset', Piece.charsAll (Piece.replace mark newName.toList offset pieces) ++ gap⟩
        forms) := by
  -- a run takes the pieces one by one, and the sessions stay together
  induction pieces generalizing offset offset' forms session session' with
  | nil =>
    rw [Piece.replace, Piece.charsAll, List.nil_append, Session.runFrom_blanks _ _ _ _ hlaid,
      Session.runFrom_blanks _ _ _ _ hlaid]
    exact h.outcome forms (.ok rfl)
  | cons piece pieces ih =>
    cases piece with
    | stray before =>
      rw [Piece.Laid] at hlaid
      rw [Piece.replace, Piece.charsAll, Piece.charsAll, Piece.chars]
      simp only [List.append_assoc, List.cons_append, List.nil_append]
      rw [Session.runFrom_stray options session offset forms _ hlaid.1 hrunning,
        Session.runFrom_stray options session' offset' forms _ hlaid.1
          (h.status.trans hrunning)]
      exact (h.record _ _ _).outcome _ (.error rfl)
    | form layout =>
      rw [Piece.replace, Piece.Laid] at hlaid'
      rw [Piece.Laid] at hlaid
      rw [Piece.replace, Piece.forms, Piece.forms, Form.relabelAll] at hforms
      rw [Piece.forms] at hformed h
      rw [inCommands_cons, binderNames_append] at h
      injection hforms with hfirst hmore
      rw [Piece.replace, Piece.charsAll, Piece.charsAll, Piece.chars, Piece.chars,
        List.append_assoc, List.append_assoc]
      have hsome : ((layout.replace mark newName.toList offset).openAt? offset').isSome =
          (layout.openAt? offset).isSome :=
        (Layout.isSome_openAt?_replace layout offset offset').trans (layout.isSome_openAt? _ _)
      by_cases hopen : options.strictLists = true ∧ (layout.openAt? offset).isSome = true
      · -- the list that is left open is reported, by itself and with the new name in it
        obtain ⟨start, hstart⟩ := Option.isSome_iff_exists.1 hopen.2
        obtain ⟨start', hstart'⟩ := Option.isSome_iff_exists.1 (hsome.trans hopen.2)
        obtain ⟨unclosed, hrun⟩ := Session.runFrom_open options session offset forms hlaid.1
          hopen.1 hstart
        obtain ⟨unclosed', hrun'⟩ := Session.runFrom_open options session' offset' forms
          hlaid'.1 hopen.1 hstart'
        rw [hrun, hrun']
        exact h.outcome _ (.error rfl)
      · have hclosed : options.strictLists = true → layout.openAt? offset = none := fun hs =>
          Option.not_isSome_iff_eq_none.1 fun hisSome => hopen ⟨hs, hisSome⟩
        have hclosed' : options.strictLists = true →
            (layout.replace mark newName.toList offset).openAt? offset' = none := fun hs =>
          Option.not_isSome_iff_eq_none.1 fun hisSome => hopen ⟨hs, hsome ▸ hisSome⟩
        obtain ⟨event, hrun⟩ := Session.runFrom_form options session offset forms hlaid.1 hclosed
        obtain ⟨event', hrun'⟩ := Session.runFrom_form options session' offset' forms hlaid'.1
          hclosed'
        rw [hrun, hrun', hfirst]
        have hstatus : (session.record options [event]).status = .running :=
          (Session.status_record _).trans hrunning
        have hstep := step_relabel options hordinary hnames hnumeral hinjective hnamed
          (hformed _ List.mem_cons_self) (h.record options [event] [event']) hstatus
        generalize hresult :
          (session.record options [event]).step options (layout.form offset) = result at hstep
        generalize (session'.record options [event']).step options
          ((layout.form offset).relabel mark newName move) = result' at hstep
        -- both steps fail, or both end the run, or both runs go on
        cases hstep with
        | error h hcode => exact h.outcome _ (.error hcode)
        | ok value h =>
          cases value with
          | terminated => exact h.outcome _ (.ok rfl)
          | running =>
            exact ih hlaid.2 hlaid'.2 hmore
              (fun form hform => hformed form (List.mem_cons_of_mem _ hform)) h
              (Session.status_of_step hresult)

/-- What is known of a script is known of each of its forms. -/
theorem formed_of_kept {forms : List Form}
    (hfaithful : ∀ form ∈ forms, FaithfulCommand mark target source globals leaves form)
    (hnamed : NamedAlike target source globals leaves)
    (hnew : newName ≠ "" ∧ Numeral.startsNumeral newName = false)
    (hordered' : Leaf.Ordered (Form.leavesAll (Form.relabelAll mark newName move forms)))
    (hkept : List.Forall₂ (Kept target newName edits) (inCommands source globals forms)
      (inCommands source globals' (Form.relabelAll mark newName move forms)))
    (hdeclared : ∀ form ∈ forms, ∀ occurrence, declared? form = some occurrence →
      occurrence.text ∈ globals)
    (hdeclared' : ∀ form ∈ Form.relabelAll mark newName move forms, ∀ occurrence,
      declared? form = some occurrence → occurrence.text ∈ globals') :
    ∀ form ∈ forms, Formed globals globals' target newName edits mark move source leaves form := by
  induction forms with
  | nil =>
    intro form hform
    cases hform
  | cons form forms ih =>
    rw [Form.relabelAll, Form.leavesAll] at hordered'
    rw [Form.relabelAll, inCommands_cons, inCommands_cons] at hkept
    rw [Form.relabelAll] at hdeclared'
    have hfirst := hfaithful form List.mem_cons_self
    have hlength := (@FaithfulCommand.forall₂_relabel _ _ _ _ newName move _ _ hfirst hnamed hnew
      globals').length_eq
    obtain ⟨hkeptFirst, hkeptMore⟩ := forall₂_append_split hkept hlength
    obtain ⟨horderedFirst, horderedMore, -⟩ := List.pairwise_append.1 hordered'
    intro found hfound
    rcases List.mem_cons.1 hfound with rfl | hfound
    · exact ⟨hfirst, horderedFirst, hkeptFirst, hdeclared _ List.mem_cons_self,
        hdeclared' _ List.mem_cons_self⟩
    · exact ih (fun form hform => hfaithful form (List.mem_cons_of_mem _ hform)) horderedMore
        hkeptMore (fun form hform => hdeclared form (List.mem_cons_of_mem _ hform))
        (fun form hform => hdeclared' form (List.mem_cons_of_mem _ hform)) found hfound

end

namespace Renaming

variable {sources : Sources} {home source newName text : String} {offset : Int}
variable {outcome : Renaming}

/-- **Different globals have different names after a renaming**: the new name is
that of no other. -/
theorem freeName_injective (h : Made sources home offset newName outcome) :
    ∀ name ∈ sources.globals, ∀ other ∈ sources.globals,
      freeName outcome.target newName other = freeName outcome.target newName name →
        other = name := by
  intro name hname other hother heq
  cases htarget : outcome.target with
  | «local» renamed home' start =>
    rw [htarget] at heq
    exact heq
  | global renamed =>
    have hclash : ∀ x ∈ sources.globals, x ≠ renamed → x ≠ newName := by
      rintro x hx hne rfl
      exact h.fresh renamed htarget hne hx
    have hfree : ∀ x, freeName (.global renamed) newName x =
        if x = renamed then newName else x := by
      intro x
      rw [freeName, Target.same]
      by_cases hx : x = renamed
      · rw [if_pos hx, if_pos (beq_iff_eq.2 hx)]
      · rw [if_neg hx, if_neg fun hbeq => hx (beq_iff_eq.1 hbeq)]
    rw [htarget, hfree, hfree] at heq
    by_cases hname' : name = renamed <;> by_cases hother' : other = renamed
    · rw [hname', hother']
    · rw [if_neg hother', if_pos hname'] at heq
      exact absurd heq (hclash other hother hother')
    · rw [if_pos hother', if_neg hname'] at heq
      exact absurd heq.symm (hclash name hname hname')
    · rwa [if_neg hother', if_neg hname'] at heq

/-- The sessions before the first form go together. -/
theorem renamed_initial (globals globals' : List String) (free : String → String)
    (names : List String) (answers : Answers Verdict) :
    Session.Renamed globals globals' free names names { solver := { answers } }
      { solver := { answers } } where
  calls := rfl
  answers := rfl
  status := rfl
  verdicts := rfl
  lines := rfl
  sorts_eq _ _ := rfl
  unknown _ _ := rfl
  unknown' _ _ := rfl
  empty := rfl

/-- A source without comments before and after a renaming: its text is laid out as
pieces, with marks at the references, and the new text as the pieces with the
new name in the marked places. -/
structure LaidOut (sources : Sources) (newName : String) (outcome : Renaming)
    (source text text' : String) (mark : Nat → Bool) (pieces : List Piece) (gap : List Char) :
    Prop where
  after : outcome.sources.get? source = some text'
  no_comments : ';' ∉ text'.toList
  text_eq : text.toList = Piece.charsAll pieces ++ gap
  text_eq' : text'.toList = Piece.charsAll (Piece.replace mark newName.toList 0 pieces) ++ gap
  laid : Piece.Laid pieces gap
  laid' : Piece.Laid (Piece.replace mark newName.toList 0 pieces) gap
  marks : Occurrence.MarksOf mark outcome.target (Form.leavesAll (forms text.toList))
    (Occurrence.inCommands source sources.globals (forms text.toList))
  forms_eq : forms text'.toList = Form.relabelAll mark newName
    (Form.shifted (editsIn sources outcome.target newName source)) (forms text.toList)
  kept : List.Forall₂ (Kept outcome.target newName (editsIn sources outcome.target newName source))
    (Occurrence.inCommands source sources.globals (forms text.toList))
    (Occurrence.inCommands source outcome.sources.globals (forms text'.toList))

/-- Where the new name is separate from what follows the references, a source
without comments is laid out after the renaming as before. -/
theorem exists_laidOut (h : Made sources home offset newName outcome)
    (hget : sources.get? source = some text) (hcomments : ';' ∉ text.toList)
    (hseparated : Separated newName text.toList
      (editsIn sources outcome.target newName source)) :
    ∃ text' mark pieces gap, LaidOut sources newName outcome source text text' mark pieces gap := by
  obtain ⟨-, -, text', hget', happlied, -⟩ := h.done hget
  obtain ⟨home', occurrence, hfound⟩ := exists_found h.found
  obtain ⟨hatom, hnew⟩ := isAtomText_of_isValidName h.valid
  have hblanked : Text.blankedComments text.toList = text.toList :=
    Text.blankedFrom_of_not_mem hcomments
  have hforms := (forms_eq_iff h hget).2 (hblanked.symm ▸ hseparated)
  obtain ⟨olds, nows, holds, hnows, hkept⟩ := forall₂_kept_of_forms_eq h hget hforms
  have hlabels := @editedText_editsIn _ outcome.target _ newName _ hget _
    (Sources.occurrences_eq hget)
  rw [Sources.forms_eq hget', Form.editAll_eq_relabelAll hlabels] at hforms
  obtain ⟨pieces, gap, htext, hlaid⟩ := exists_pieces text.toList
  have hedits := @edits_parts_eq _ _ _ _ _ _ newName hfound _ hget _
    (Sources.occurrences_eq hget) _ _ (hblanked.trans htext) hlaid
  rw [Sources.occurrences_eq hget] at holds
  rw [Sources.occurrences_eq hget'] at hnows
  cases holds
  cases hnows
  -- the text after the renaming has no comments either
  have htext' := toList_of_applied htext (hedits ▸ happlied)
  obtain ⟨text'', happlied', hblanked'⟩ := exists_applied (semicolon_not_mem_newName h)
    (hblanked.trans htext) hlaid _
  rw [hedits, happlied] at happlied'
  cases happlied'
  rw [← htext'] at hblanked'
  -- the new name may stand in the place of the old one
  have hlaid' := Piece.laid_replace hatom hlaid ((Part.each_apart_iff hatom).2 (by
    rw [Piece.join_parts, hedits, ← htext]
    exact hseparated))
  rw [hblanked, hblanked'] at hforms
  rw [hblanked, hblanked'] at hkept
  rw [hblanked] at hlaid' htext'
  exact ⟨text', _, pieces, gap, hget',
    hblanked' ▸ Text.semicolon_not_mem_blankedFrom false text'.toList, htext, htext', hlaid, hlaid',
    marksOf_markOf _ _ _, Except.ok.inj hforms, hkept⟩

/-- **The script of a source runs after a renaming as it ran before**, where the
new name is separate from what follows the references. -/
theorem rename_keeps_runs (h : sources.rename home offset newName = .ok outcome)
    (hordinary : Ordinary outcome.target.name newName) (hget : sources.get? source = some text)
    (hcomments : ';' ∉ text.toList)
    (hseparated : Separated newName text.toList
      (editsIn sources outcome.target newName source)) :
    ∃ text', outcome.sources.get? source = some text' ∧
      ∀ (options : Options) (answers : Answers Verdict),
        OutcomeAlike (freeName outcome.target newName)
          (binderNames outcome.target newName source
            (Occurrence.inCommands source sources.globals (forms text.toList)))
          (Session.run options ({ answers } : Recorder) text.toList)
          (Session.run options ({ answers } : Recorder) text'.toList) := by
  have hmade := made_of_rename h
  obtain ⟨home', occurrence, hfound⟩ := exists_found hmade.found
  obtain ⟨-, hnew⟩ := isAtomText_of_isValidName hmade.valid
  obtain ⟨text', mark, pieces, gap, hlaidOut⟩ := exists_laidOut hmade hget hcomments hseparated
  refine ⟨text', hlaidOut.after, fun options answers => ?_⟩
  -- what blanking comments leaves is the text, before and after
  have hblanked : Text.blankedComments text.toList = text.toList :=
    Text.blankedFrom_of_not_mem hcomments
  have hblanked' : Text.blankedComments text'.toList = text'.toList :=
    Text.blankedFrom_of_not_mem hlaidOut.no_comments
  have hnamed := hfound.namedAlike hget
  have hdeclared := Sources.mem_globals hget
  have hdeclared' := Sources.mem_globals hlaidOut.after
  rw [hblanked] at hnamed hdeclared
  rw [hblanked', hlaidOut.forms_eq] at hdeclared'
  have hordered' := ordered_leavesAll_forms text'.toList
  have hkept := hlaidOut.kept
  rw [hlaidOut.forms_eq] at hordered' hkept
  have hfaithful := Occurrence.faithfulCommand_of_markedIn
    ⟨fun _ hleaf => hleaf, ordered_leavesAll_forms _, hlaidOut.marks⟩
  have hformed := formed_of_kept hfaithful hnamed hnew hordered' hkept hdeclared hdeclared'
  have hforms := hlaidOut.forms_eq
  rw [hlaidOut.text_eq, hlaidOut.text_eq', forms_pieces hlaidOut.laid,
    forms_pieces hlaidOut.laid'] at hforms
  rw [hlaidOut.text_eq, forms_pieces hlaidOut.laid] at hformed hnamed
  rw [Session.run, Session.run, Text.withoutComments_of_not_mem hcomments,
    Text.withoutComments_of_not_mem hlaidOut.no_comments, hlaidOut.text_eq', hlaidOut.text_eq,
    forms_pieces hlaidOut.laid]
  exact run_relabel hordinary ⟨hfound.name_ne, hnew.1⟩ hnew.2 (freeName_injective hmade) hnamed
    hlaidOut.laid hlaidOut.laid' hforms hformed (renamed_initial _ _ _ _ answers) rfl

/-- A script that binds `y` to the declared `x`. -/
def bindsAnother : Sources :=
  Table.ofList [("a", "(declare-fun x () Real)(assert (let ((y x)) (> y 1)))")]

/-- The bound name may be `x` as well: it shadows the variable in the body, but not
in its own value, and the script asks the same. -/
theorem run_of_bindsAnother :
    ∃ outcome, bindsAnother.rename "a" 38 "x" = .ok outcome ∧
      ∀ (options : Options) (answers : Answers Verdict),
        OutcomeAlike id ["x"]
          (Session.run options ({ answers } : Recorder)
            "(declare-fun x () Real)(assert (let ((y x)) (> y 1)))".toList)
          (Session.run options ({ answers } : Recorder)
            "(declare-fun x () Real)(assert (let ((x x)) (> x 1)))".toList) := by
  have hrename : (bindsAnother.rename "a" 38 "x").map
      (fun outcome => (outcome.target, outcome.sources.get? "a")) =
        .ok (.local "y" "a" 38,
          some "(declare-fun x () Real)(assert (let ((x x)) (> x 1)))") := by
    simp only [Sources.rename, edited, Edit.applyAll, Edit.sorted_eq_insertionSort]
    decide +kernel
  have hedits : editsIn bindsAnother (.local "y" "a" 38) "x" "a" =
      [⟨38, 39, "x"⟩, ⟨47, 48, "x"⟩] := by decide +kernel
  have hbinders : binderNames (.local "y" "a" 38) "x" "a" (Occurrence.inCommands "a"
      bindsAnother.globals
      (forms "(declare-fun x () Real)(assert (let ((y x)) (> y 1)))".toList)) = ["x"] := by
    decide +kernel
  have hbinder : Text.behind "(declare-fun x () Real)(assert (let ((y x)) (> y 1)))".toList 39 =
      " x)) (> y 1)))".toList := by decide +kernel
  have hvariable : Text.behind "(declare-fun x () Real)(assert (let ((y x)) (> y 1)))".toList 48 =
      " 1)))".toList := by decide +kernel
  cases h : bindsAnother.rename "a" 38 "x" with
  | error fault => rw [h] at hrename; cases hrename
  | ok outcome =>
    rw [h] at hrename
    obtain ⟨hname, hget⟩ := Prod.mk.inj (Except.ok.inj hrename)
    have hseparated : Separated "x" "(declare-fun x () Real)(assert (let ((y x)) (> y 1)))".toList
        (editsIn bindsAnother outcome.target "x" "a") := by
      rw [hname, hedits]
      refine .inr fun edit hedit => ?_
      rcases List.mem_pair.1 hedit with rfl | rfl
      · rw [hbinder]
        exact delimited_cons.2 rfl
      · rw [hvariable]
        exact delimited_cons.2 rfl
    obtain ⟨text', hget', hrun⟩ := rename_keeps_runs h
      (by rw [hname]; exact ⟨by decide, by decide, by decide, by decide⟩)
      (show bindsAnother.get? "a" = some _ from rfl) (by decide) hseparated
    rw [hget] at hget'
    cases hget'
    rw [hname, hbinders] at hrun
    exact ⟨outcome, rfl, hrun⟩

/-- **A script may run otherwise where the new name runs together with an atom**:
what was a list of four, and no `let`, is a `let` of a binding that is
none. -/
theorem run_of_runTogether :
    ∃ outcome text', runTogether.rename "a" 13 "z" = .ok outcome ∧
      outcome.sources.get? "a" = some text' ∧
      ∀ free names,
        ¬ OutcomeAlike free names
          (Session.run {} ({ answers := ⟨[]⟩ } : Recorder)
            "(declare-fun |x| () Real)(assert (let (f u) |x|1))(assert z)".toList)
          (Session.run {} ({ answers := ⟨[]⟩ } : Recorder) text'.toList) := by
  have htext : (runTogether.rename "a" 13 "z").map (·.sources.get? "a") =
      .ok (some "(declare-fun z () Real)(assert (let (f u) z1))(assert z)") := by
    simp only [Sources.rename, edited, Edit.applyAll, Edit.sorted_eq_insertionSort]
    decide +kernel
  have hbefore : (Session.run {} ({ answers := ⟨[]⟩ } : Recorder)
      "(declare-fun |x| () Real)(assert (let (f u) |x|1))(assert z)".toList).code? =
        some .wrongCount := by decide +kernel
  have hafter : (Session.run {} ({ answers := ⟨[]⟩ } : Recorder)
      "(declare-fun z () Real)(assert (let (f u) z1))(assert z)".toList).code? =
        some .malformed := by decide +kernel
  cases h : runTogether.rename "a" 13 "z" with
  | error fault => rw [h] at htext; cases htext
  | ok outcome =>
    rw [h] at htext
    refine ⟨outcome, _, rfl, Except.ok.inj htext, fun free names halike => ?_⟩
    have hcode := halike.code?_eq
    rw [hbefore, hafter] at hcode
    cases hcode

end Renaming

end SatScript
