import SatScript.Proofs.Rename.Elaborated
import SatScript.Proofs.Session.Running
/-!
# SatScript — commands after a renaming

A command after a renaming is the command before it with the global
renamed and with the renamed expression (`ofForm_relabel`), so a session
that takes it does the same: `Session.Renamed` says how two sessions go
together, and `step_relabel` that they still do behind every form.
-/

namespace SatScript

namespace Renaming

variable {source : String} {globals globals' : List String} {target : Target} {newName : String}
variable {edits : List Edit} {mark : Nat → Bool} {move : Nat → Nat} {leaves : List Leaf}
variable {form : Form}

/-- The name that a global has after the renaming. -/
def freeName (target : Target) (newName name : String) : String :=
  if (Target.global name).same target then newName else name

theorem image_global (name : String) :
    image target newName edits (.global name) = .global (freeName target newName name) := rfl

theorem freeName_of_ne {name : String} (h : name ≠ target.name) :
    freeName target newName name = name := by
  cases target with
  | global other =>
    have hne : name ≠ other := h
    rw [freeName, Target.same, beq_false_of_ne hne, if_neg Bool.false_ne_true]
  | «local» other home start => rfl

/-- A global that is renamed has the new name. -/
theorem freeName_eq_or (name : String) :
    freeName target newName name = name ∨
      name = target.name ∧ freeName target newName name = newName := by
  by_cases h : name = target.name
  · rw [freeName]
    split
    · exact .inr ⟨h, rfl⟩
    · exact .inl rfl
  · exact .inl (freeName_of_ne h)

/-! ## Commands -/

/-- A command before and after a renaming. -/
inductive CommandAlike (mark : Nat → Bool) (move : Nat → Nat) (target : Target) (newName : String) :
    Command → Command → Prop
  | ignore (name : String) : CommandAlike mark move target newName (.ignore name) (.ignore name)
  | declare (name : String) (sort : BaseSort) :
      CommandAlike mark move target newName (.declare name sort)
        (.declare (freeName target newName name) sort)
  | assert (body : Form) :
      CommandAlike mark move target newName (.assert body)
        (.assert (body.relabel mark newName move))
  | check : CommandAlike mark move target newName .check .check
  | exit : CommandAlike mark move target newName .exit .exit

/-- In a declaration the name is marked if it is the target, and the sort is
not. -/
theorem marks_of_declaration {start stop p q p' q' p'' q'' : Nat} {name sort : String}
    {params : Form}
    (h : Occurrence.FaithfulCommand mark target source globals leaves
      (.list [.atom "declare-fun" start stop, .atom name p q, params, .atom sort p' q'] p'' q'')) :
    mark p = (Target.global name).same target ∧ mark p' = false := by
  have hmarks := h.marks
  have hordered := h.ordered
  have hleaves : (Form.list [.atom "declare-fun" start stop, .atom name p q, params,
      .atom sort p' q'] p'' q'').leaves =
        ⟨"declare-fun", start, stop⟩ :: ⟨name, p, q⟩ :: (params.leaves ++ [⟨sort, p', q'⟩]) := by
    simp [Form.leaves, Form.leavesAll]
  have hnames : Occurrence.inCommand source globals (.list [.atom "declare-fun" start stop,
      .atom name p q, params, .atom sort p' q'] p'' q'') =
        [⟨name, p, q, some (.global name)⟩] := rfl
  rw [hleaves] at hmarks hordered
  rw [hnames] at hmarks
  -- the sort stands behind the name, so nothing that is passed begins there
  have hsort := hmarks ⟨sort, p', q'⟩ (by simp)
  have hlt := (List.pairwise_cons.1 (List.pairwise_cons.1 hordered).2).1 ⟨sort, p', q'⟩
    (List.mem_append_right _ List.mem_cons_self)
  have hne : p ≠ p' := Nat.ne_of_lt hlt
  refine ⟨h.mark_of_declared rfl, ?_⟩
  rw [hsort, List.any_cons, List.any_nil, Bool.or_false, beq_false_of_ne hne, Bool.false_and]

/-- A declaration after a renaming declares the name that the variable has then,
with the sort that it had. -/
theorem declaration_relabel {start stop p q : Nat} {rest : List Form}
    (h : Occurrence.FaithfulCommand mark target source globals leaves
      (.list (.atom "declare-fun" start stop :: rest) p q)) (form' head' : Form) :
    Agree (CommandAlike mark move target newName)
      (Command.declaration (.list (.atom "declare-fun" start stop :: rest) p q)
        (.atom "declare-fun" start stop :: rest))
      (Command.declaration form' (head' :: Form.relabelAll mark newName move rest)) := by
  -- a declaration of another shape is none before and after, for one code
  rcases rest with _ | ⟨first, _ | ⟨params, _ | ⟨sort, _ | ⟨_, _⟩⟩⟩⟩
  case cons.cons.cons.nil =>
    cases first with
    | list => exact .error rfl
    | atom name p' q' =>
      rcases params with _ | ⟨_ | ⟨_, _⟩, _, _⟩
      case list.nil =>
        cases sort with
        | list => exact .error rfl
        | atom sort p'' q'' =>
          obtain ⟨hname, hsort⟩ := marks_of_declaration h
          simp only [Form.relabelAll, Form.relabel, hname, hsort, Bool.false_eq_true, if_false,
            Command.declaration]
          cases BaseSort.ofName? sort with
          | none => exact .error rfl
          | some found => exact .ok (.declare name found)
      all_goals exact .error rfl
  all_goals exact .error rfl

/-- **A command after a renaming** is the command before it, renamed; or neither
is one, for causes of one code. -/
theorem ofForm_relabel_command
    (h : Occurrence.FaithfulCommand mark target source globals leaves form) :
    Agree (CommandAlike mark move target newName) (Command.ofForm form)
      (Command.ofForm (form.relabel mark newName move)) := by
  match form, h with
  | .atom _ _ _, _ => exact .error rfl
  | .list [] _ _, _ => exact .error rfl
  | .list (.list _ _ _ :: _) _ _, _ => exact .error rfl
  | .list (.atom head start stop :: rest) p q, h =>
    have hhead := h.head_unmarked head start stop rest p q rfl
    rw [Form.relabel, Form.relabelAll, Form.relabel, hhead, if_neg Bool.false_ne_true,
      Command.ofForm, Command.ofForm]
    by_cases hignored : Command.isIgnored head = true
    · rw [if_pos hignored, if_pos hignored]
      exact .ok (.ignore head)
    rw [if_neg hignored, if_neg hignored]
    by_cases hdeclare : head = "declare-fun"
    · subst hdeclare
      rw [if_pos rfl, if_pos rfl]
      exact declaration_relabel h _ _
    rw [if_neg hdeclare, if_neg hdeclare]
    by_cases hassert : head = "assert"
    · rw [if_pos hassert, if_pos hassert]
      rcases rest with _ | ⟨body, _ | ⟨_, _⟩⟩
      · exact .error rfl
      · exact .ok (.assert body)
      · exact .error rfl
    rw [if_neg hassert, if_neg hassert]
    by_cases hcheck : head = "check-sat"
    · rw [if_pos hcheck, if_pos hcheck]
      exact .ok .check
    rw [if_neg hcheck, if_neg hcheck]
    by_cases hexit : head = "exit"
    · rw [if_pos hexit, if_pos hexit]
      exact .ok .exit
    · rw [if_neg hexit, if_neg hexit]
      exact .error rfl

/-- The names of a command, by what the command is. -/
theorem names_of_command {command : Command} (h : Command.ofForm form = .ok command) :
    (∃ body, command = .assert body ∧ Occurrence.declared? form = none ∧
      Occurrence.asserted? form = some body) ∨
    (∃ name sort start stop, command = .declare name sort ∧
      Occurrence.declared? form = some ⟨name, start, stop, some (.global name)⟩) ∨
    ((∀ body, command ≠ .assert body) ∧ (∀ name sort, command ≠ .declare name sort) ∧
      Occurrence.inCommand source globals form = []) := by
  obtain ⟨head, start, stop, rest, p, q, rfl, hcases⟩ := Command.cases_of_ofForm h
  have hother : head ≠ "declare-fun" → head ≠ "assert" →
      Occurrence.inCommand source globals (.list (.atom head start stop :: rest) p q) = [] := by
    intro hdeclare hassert
    refine Occurrence.inCommand_of_none ?_ ?_
    · cases rest with
      | nil => rfl
      | cons first rest => cases first <;> simp [Occurrence.declared?, hdeclare]
    · cases rest with
      | nil => rfl
      | cons first rest => simp [Occurrence.asserted?, hassert]
  rcases hcases with ⟨hignored, rfl⟩ | ⟨rfl, name, p', q', more, sort, rfl, rfl⟩ |
    ⟨rfl, body, rfl, rfl⟩ | ⟨rfl, rfl⟩ | ⟨rfl, rfl⟩
  · refine .inr (.inr ⟨by simp, by simp, hother ?_ ?_⟩)
    · rintro rfl
      exact absurd hignored (by decide)
    · rintro rfl
      exact absurd hignored (by decide)
  · exact .inr (.inl ⟨name, sort, p', q', rfl, rfl⟩)
  · refine .inl ⟨body, rfl, ?_, rfl⟩
    cases body <;> rfl
  · exact .inr (.inr ⟨by simp, by simp, hother (by decide) (by decide)⟩)
  · exact .inr (.inr ⟨by simp, by simp, hother (by decide) (by decide)⟩)

end Renaming

/-! ## Sessions -/

/-- Two sessions before and after a renaming: what the second solver was asked
is what the first was asked, renamed, with names left for the binders to
come; and the scopes give the same sorts under the names before and after. -/
structure Session.Renamed (globals globals' : List String) (free : String → String)
    (names left : List String) (session session' : Session Recorder) : Prop where
  calls : Call.renameAll free names session.solver.calls = (session'.solver.calls, left)
  answers : session'.solver.answers = session.solver.answers
  status : session'.status = session.status
  verdicts : session'.verdicts = session.verdicts
  lines : session'.lines = session.lines
  sorts_eq : ∀ name ∈ globals, session'.scope.lookup (free name) = session.scope.lookup name
  unknown : ∀ name, name ∉ globals → session.scope.lookup name = none
  unknown' : ∀ name, name ∉ globals' → session'.scope.lookup name = none
  empty : session'.scope.lookup "" = session.scope.lookup ""

namespace Session.Renamed

variable {globals globals' : List String} {free : String → String} {names left : List String}
variable {session session' : Session Recorder} {options : Options}

/-- What is put into the traces does not matter. -/
theorem record (h : Renamed globals globals' free names left session session') (options : Options)
    (events events' : List Event) :
    Renamed globals globals' free names left (session.record options events)
      (session'.record options events') := by
  constructor <;> simp only [solver_record, scope_record, status_record, verdicts_record,
    lines_record]
  · exact h.calls
  · exact h.answers
  · exact h.status
  · exact h.verdicts
  · exact h.lines
  · exact h.sorts_eq
  · exact h.unknown
  · exact h.unknown'
  · exact h.empty

/-- Both declare a global under the name that it has. -/
theorem declare (h : Renamed globals globals' free names left session session') {name : String}
    (hname : name ∈ globals) (hname' : free name ∈ globals')
    (hinjective : ∀ other ∈ globals, free other = free name → other = name)
    (hempty : "" = free name ↔ "" = name) (sort : BaseSort) :
    Renamed globals globals' free names left (session.declare options name sort)
      (session'.declare options (free name) sort) := by
  have hrecord := h.record options [.declared name sort] [.declared (free name) sort]
  refine { hrecord with calls := ?calls, sorts_eq := ?sorts_eq, unknown := ?unknown,
                        unknown' := ?unknown', empty := ?empty }
  case calls =>
    show Call.renameAll free names
        ((session.record options _).solver.calls ++ [.declare name sort]) =
      ((session'.record options _).solver.calls ++ [.declare (free name) sort], left)
    rw [Call.renameAll_append, hrecord.calls]
    rfl
  case sorts_eq =>
    intro other hother
    rw [Session.declare, Session.declare, Scope.lookup_define, Scope.lookup_define,
      hrecord.sorts_eq other hother]
    by_cases heq : other = name
    · rw [if_pos heq, if_pos (by rw [heq])]
    · rw [if_neg heq, if_neg fun hfree => heq (hinjective other hother hfree)]
  case unknown =>
    intro other hother
    rw [Session.declare, Scope.lookup_define, if_neg fun heq => hother (by rw [heq]; exact hname)]
    exact hrecord.unknown other hother
  case unknown' =>
    intro other hother
    rw [Session.declare, Scope.lookup_define, if_neg fun heq => hother (by rw [heq]; exact hname')]
    exact hrecord.unknown' other hother
  case empty =>
    rw [Session.declare, Session.declare, Scope.lookup_define, Scope.lookup_define, hrecord.empty]
    by_cases heq : "" = name
    · rw [if_pos heq, if_pos (hempty.2 heq)]
    · rw [if_neg heq, if_neg fun hfree => heq (hempty.1 hfree)]

/-- Both get the same answer to a check. -/
theorem check (h : Renamed globals globals' free names left session session') :
    Renamed globals globals' free names left (session.check options) (session'.check options) := by
  have hnext : session'.solver.answers.next .unknown = session.solver.answers.next .unknown := by
    rw [h.answers]
  have hrecord := h.record options
    [.decided (session.solver.answers.next .unknown).1]
    [.decided (session'.solver.answers.next .unknown).1]
  refine { hrecord with calls := ?calls, answers := ?answers, verdicts := ?verdicts,
                        lines := ?lines }
  case calls =>
    show Call.renameAll free names (session.solver.calls ++ [.check options.produceModels]) =
      (session'.solver.calls ++ [.check options.produceModels], left)
    rw [Call.renameAll_append, h.calls]
    rfl
  case answers =>
    show (session'.solver.answers.next .unknown).2 = (session.solver.answers.next .unknown).2
    rw [hnext]
  case verdicts =>
    show (session'.record options _).verdicts ++ [(session'.solver.answers.next .unknown).1] =
      (session.record options _).verdicts ++ [(session.solver.answers.next .unknown).1]
    rw [hnext, verdicts_record, verdicts_record, h.verdicts]
  case lines =>
    show (session'.record options _).lines ++ [(session'.solver.answers.next .unknown).1.text] =
      (session.record options _).lines ++ [(session.solver.answers.next .unknown).1.text]
    rw [hnext, lines_record, lines_record, h.lines]

/-- The scopes are related where an assertion stands. -/
theorem related {target : Target} {newName : String} {edits : List Edit}
    {leaves leaves' : List Leaf}
    (h : Renamed globals globals' (Renaming.freeName target newName) names left session session') :
    Renaming.Related globals globals' target newName edits leaves leaves' Scope.empty Scope.empty
      session.scope session'.scope (Renaming.freeName target newName) := by
  have hresolve : ∀ (globals : List String) (name : String),
      Occurrence.resolve globals Scope.empty name =
        if name ∈ globals then some (.global name) else none := by
    intro globals name
    rw [Occurrence.resolve, Scope.lookup_empty]
    simp
  have hsome : ∀ {globals : List String} {name : String} {found : Target},
      Occurrence.resolve globals Scope.empty name = some found →
        name ∈ globals ∧ found = .global name := by
    intro globals name found hfound
    rw [hresolve] at hfound
    split at hfound
    · rename_i hmem
      exact ⟨hmem, (Option.some.inj hfound).symm⟩
    · cases hfound
  have hnone : ∀ {globals : List String} {name : String},
      Occurrence.resolve globals Scope.empty name = none → name ∉ globals := by
    intro globals name hfound hmem
    rw [hresolve, if_pos hmem] at hfound
    cases hfound
  -- outside of expressions nothing is bound
  have hnoLocal : ∀ (name : String) (found : Target),
      (Scope.empty : Scope Target).lookup name ≠ some found := by
    intro name found hfound
    rw [Scope.lookup_empty] at hfound
    cases hfound
  refine { sorts_eq := ?sorts_eq, unknown := fun name hname => h.unknown name (hnone hname),
           unknown' := fun name hname => h.unknown' name (hnone hname), empty := h.empty,
           env_eq := ?env_eq, name_eq := ?name_eq,
           fixed := fun name hne => Renaming.freeName_of_ne hne,
           apart := fun name found hfound => absurd hfound (hnoLocal name found),
           apart_image := fun name found hfound => absurd hfound (hnoLocal name found),
           apart' := fun name found hfound => absurd hfound (hnoLocal name found) }
  case sorts_eq =>
    intro name name' found hfound hfound'
    obtain ⟨hmem, rfl⟩ := hsome hfound
    obtain ⟨-, himage⟩ := hsome hfound'
    rw [Renaming.image_global] at himage
    injection himage with hname
    rw [← hname]
    exact h.sorts_eq name hmem
  case env_eq =>
    intro name found hfound
    obtain ⟨-, rfl⟩ := hsome hfound
    rfl
  case name_eq =>
    intro name found hfound
    obtain ⟨-, rfl⟩ := hsome hfound
    rfl

end Session.Renamed

/-! ## Steps -/

/-- Two steps before and after a renaming: they end alike in sessions that go
together. Of the names those in `more` are left, unless the steps fail. -/
inductive StepAlike {α : Type} (globals globals' : List String) (free : String → String)
    (names more : List String) :
    Session Recorder × Except Fault α → Session Recorder × Except Fault α → Prop
  | ok {session session' : Session Recorder} (value : α)
      (h : session.Renamed globals globals' free names more session') :
      StepAlike globals globals' free names more (session, .ok value) (session', .ok value)
  | error {session session' : Session Recorder} {left : List String} {fault fault' : Fault}
      (h : session.Renamed globals globals' free names left session')
      (hcode : fault.cause.code = fault'.cause.code) :
      StepAlike globals globals' free names more (session, .error fault) (session', .error fault')

section

open Renaming Occurrence

variable {source : String} {globals globals' : List String} {target : Target} {newName : String}
variable {edits : List Edit} {mark : Nat → Bool} {move : Nat → Nat} {leaves : List Leaf}
variable {form : Form} {names more binders : List String} {session session' : Session Recorder}
variable {options : Options}

/-- Expressions that are elaborated alike are asserted alike. -/
theorem assert_renamed {free : String → String} {body body' : Form}
    (h : session.Renamed globals globals' free names (binders ++ more) session')
    (hagree : Agree (RenamesTo free binders)
      (Expr.ofForm options.fractionalNumerals session.scope body).result
      (Expr.ofForm options.fractionalNumerals session'.scope body').result) :
    StepAlike globals globals' free names more (session.assert options body)
      (session'.assert options body') := by
  have hrecord := h.record options
    (Expr.ofForm options.fractionalNumerals session.scope body).events
    (Expr.ofForm options.fractionalNumerals session'.scope body').events
  rw [Session.assert, Session.assert]
  generalize (Expr.ofForm options.fractionalNumerals session.scope body).result = result at hagree
  generalize (Expr.ofForm options.fractionalNumerals session'.scope body').result = result'
    at hagree
  cases hagree with
  | error hcode => exact .error hrecord hcode
  | @ok expr expr' hexpr =>
    refine .ok () { hrecord with calls := ?calls }
    show Call.renameAll free names ((session.record options _).solver.calls ++ [.assert expr]) =
      ((session'.record options _).solver.calls ++ [.assert expr'], more)
    rw [Call.renameAll_append, hrecord.calls, Call.renameAll, Call.rename]
    simp only [hexpr more]
    rfl

/-- A form in a script before and after a renaming, and what is known of it. -/
structure Formed (globals globals' : List String) (target : Target) (newName : String)
    (edits : List Edit) (mark : Nat → Bool) (move : Nat → Nat) (source : String)
    (leaves : List Leaf) (form : Form) : Prop where
  faithful : FaithfulCommand mark target source globals leaves form
  ordered' : Leaf.Ordered (form.relabel mark newName move).leaves
  kept : List.Forall₂ (Kept target newName edits) (inCommand source globals form)
    (inCommand source globals' (form.relabel mark newName move))
  declared : ∀ occurrence, declared? form = some occurrence → occurrence.text ∈ globals
  declared' : ∀ occurrence, declared? (form.relabel mark newName move) = some occurrence →
    occurrence.text ∈ globals'

/-- **A session carries a command out after a renaming as it did before.** -/
theorem perform_relabel (options : Options) (hordinary : Ordinary target.name newName)
    (hnames : target.name ≠ "" ∧ newName ≠ "") (hnumeral : Numeral.startsNumeral newName = false)
    (hinjective : ∀ name ∈ globals, ∀ other ∈ globals,
      freeName target newName other = freeName target newName name → other = name)
    (hnamed : NamedAlike target source globals leaves)
    (hform : Formed globals globals' target newName edits mark move source leaves form)
    (h : session.Renamed globals globals' (freeName target newName) names
      (binderNames target newName source (inCommand source globals form) ++ more) session')
    {command command' : Command} (hcommand : Command.ofForm form = .ok command)
    (hcommand' : Command.ofForm (form.relabel mark newName move) = .ok command')
    (hagree : CommandAlike mark move target newName command command') :
    StepAlike globals globals' (freeName target newName) names more
      (session.perform options command) (session'.perform options command') := by
  rcases @names_of_command source globals form _ hcommand with ⟨body, rfl, hdeclared, hasserted⟩ |
    ⟨name, sort, start, stop, rfl, hdeclared⟩ | ⟨hnoAssert, hnoDeclare, hnone⟩
  · cases hagree
    have hdeclared' := @declared?_relabel mark newName move form hform.faithful.head_unmarked
    have hasserted' := @asserted?_relabel mark newName move form hform.faithful.head_unmarked
    have hkept := hform.kept
    rw [hdeclared] at hdeclared'
    rw [hasserted] at hasserted'
    rw [inCommand_of_asserted hdeclared hasserted] at h hkept
    rw [inCommand_of_asserted hdeclared' hasserted'] at hkept
    obtain ⟨hbody, hordered⟩ := hform.faithful.body hnamed hdeclared hasserted
    exact assert_renamed h ((ofForm_relabel hordinary hnames hnumeral).1 _ body _ _ _ _ hbody
      ⟨hordered, hform.ordered'.sublist (sublist_asserted hasserted'), hkept, h.related⟩)
  · cases hagree
    have hdeclared' := @declared?_relabel mark newName move form hform.faithful.head_unmarked
    have hmark := hform.faithful.mark_of_declared hdeclared
    rw [hdeclared, Option.map_some] at hdeclared'
    have hname := hform.declared _ hdeclared
    have hname' : freeName target newName name ∈ globals' := by
      have hmem := hform.declared' _ hdeclared'
      rw [hmark] at hmem
      exact hmem
    have hnone :
        binderNames target newName source [⟨name, start, stop, some (.global name)⟩] = [] := rfl
    rw [inCommand_of_declared hdeclared, hnone, List.nil_append] at h
    refine .ok () (h.declare hname hname' (hinjective name hname) ?_ sort)
    rcases freeName_eq_or name with hsame | ⟨hrenamed, hnew⟩
    · rw [hsame]
    · rw [hnew, hrenamed]
      exact ⟨fun heq => absurd heq.symm hnames.2, fun heq => absurd heq.symm hnames.1⟩
  · rw [hnone] at h
    cases hagree with
    | assert body => exact absurd rfl (hnoAssert body)
    | declare name sort => exact absurd rfl (hnoDeclare name sort)
    | ignore name => exact .ok () (h.record _ _ _)
    | check => exact .ok () h.check
    | exit => exact .ok () { h with status := rfl }

/-- **A session takes a form after a renaming as it took it before.** -/
theorem step_relabel (options : Options) (hordinary : Ordinary target.name newName)
    (hnames : target.name ≠ "" ∧ newName ≠ "") (hnumeral : Numeral.startsNumeral newName = false)
    (hinjective : ∀ name ∈ globals, ∀ other ∈ globals,
      freeName target newName other = freeName target newName name → other = name)
    (hnamed : NamedAlike target source globals leaves)
    (hform : Formed globals globals' target newName edits mark move source leaves form)
    (h : session.Renamed globals globals' (freeName target newName) names
      (binderNames target newName source (inCommand source globals form) ++ more) session')
    (hrunning : session.status = .running) :
    StepAlike globals globals' (freeName target newName) names more (session.step options form)
      (session'.step options (form.relabel mark newName move)) := by
  have hrunning' : session'.status = .running := h.status.trans hrunning
  have hagree := @ofForm_relabel_command source globals target newName mark move leaves form
    hform.faithful
  rw [Session.step, Session.step, hrunning, hrunning']
  cases hcommand : Command.ofForm form with
  | error fault =>
    rw [hcommand] at hagree
    cases hcommand' : Command.ofForm (form.relabel mark newName move) with
    | error fault' =>
      rw [hcommand'] at hagree
      cases hagree with
      | error hcode => exact .error h hcode
    | ok command => rw [hcommand'] at hagree; cases hagree
  | ok command =>
    rw [hcommand] at hagree
    cases hcommand' : Command.ofForm (form.relabel mark newName move) with
    | error fault' => rw [hcommand'] at hagree; cases hagree
    | ok command' =>
      rw [hcommand'] at hagree
      cases hagree with
      | ok hcommands =>
        have hperform := perform_relabel options hordinary hnames hnumeral hinjective hnamed hform h
          hcommand hcommand' hcommands
        simp only
        generalize session.perform options command = result at hperform
        generalize session'.perform options command' = result' at hperform
        cases hperform with
        | ok value h =>
          simp only [h.status]
          exact .ok _ h
        | error h hcode => exact .error h hcode

end

end SatScript
