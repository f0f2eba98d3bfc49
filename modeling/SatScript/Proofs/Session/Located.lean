import SatScript.Proofs.Layout.Nesting
import SatScript.Proofs.Session.Stepping
import SatScript.Proofs.Term.Shape
/-!
# SatScript — where faults are found

A fault of a form points into it: its span is that of one of the nodes of the form, and
if it is about a name, a numeral or a command, the node is the atom that says so
(`Fault.FoundAt`). A computation keeps this from part to part (`FaultsIn.bind`), so that
it is said of an elaboration by the induction on forms that the elaboration is, and of a
session through what can happen in a step. In a form that was read all nodes stand
within the form, and so does what is reported (`fault_located`). Only the faults of the
back end have no place, since it is given expressions and not forms.
-/

namespace SatScript

/-! ## The nodes of a form -/

namespace Form

mutual

/-- The nodes of a form: itself, and those of its items. -/
def nodes : Form → List Form
  | .atom text start stop => [.atom text start stop]
  | .list items start stop => .list items start stop :: nodesAll items

/-- The nodes of forms one after another. -/
def nodesAll : List Form → List Form
  | [] => []
  | form :: forms => nodes form ++ nodesAll forms

end

theorem mem_nodes_self (form : Form) : form ∈ form.nodes := by
  cases form with
  | atom text start stop => exact List.mem_singleton_self _
  | list items start stop => exact List.mem_cons_self

theorem nodesAll_subset_nodes (items : List Form) (start stop : Nat) :
    nodesAll items ⊆ nodes (.list items start stop) :=
  List.subset_cons_self _ _

theorem nodes_subset_nodesAll {form : Form} {forms : List Form} (h : form ∈ forms) :
    form.nodes ⊆ nodesAll forms := by
  induction forms with
  | nil => cases h
  | cons first forms ih =>
    rw [nodesAll]
    rcases List.mem_cons.1 h with rfl | h
    · exact List.subset_append_left _ _
    · exact List.Subset.trans (ih h) (List.subset_append_right _ _)

theorem mem_nodesAll_cons {form : Form} {forms : List Form} : form ∈ nodesAll (form :: forms) :=
  List.mem_append_left _ (mem_nodes_self form)

mutual

/-- **Each node of a form stands within the form**, if the items of each list in it stand
within the list. -/
theorem bounds_of_mem_nodes : ∀ {form : Form}, form.start ≤ form.stop →
    (∀ group ∈ groups form, group.Fits) → ∀ node ∈ form.nodes,
      form.start ≤ node.start ∧ node.start ≤ node.stop ∧ node.stop ≤ form.stop
  | .atom text start stop, hform, _, node, hnode => by
    rw [List.mem_singleton.1 hnode]
    exact ⟨Nat.le_refl _, hform, Nat.le_refl _⟩
  | .list items start stop, hform, hfits, node, hnode => by
    obtain ⟨hgroup, hgroups⟩ := List.forall_mem_cons.1 hfits
    rcases List.mem_cons.1 hnode with rfl | hnode
    · exact ⟨Nat.le_refl _, hform, Nat.le_refl _⟩
    · obtain ⟨hlow, hnode, hhigh⟩ := bounds_of_mem_nodesAll hgroup.within hgroups node hnode
      exact ⟨Nat.le_of_succ_le hlow, hnode, hhigh⟩

theorem bounds_of_mem_nodesAll : ∀ {low high : Nat} {forms : List Form}, Within low high forms →
    (∀ group ∈ groupsAll forms, group.Fits) → ∀ node ∈ nodesAll forms,
      low ≤ node.start ∧ node.start ≤ node.stop ∧ node.stop ≤ high
  | _, _, [], _, _, _, hnode => nomatch hnode
  | low, high, form :: forms, hwithin, hfits, node, hnode => by
    obtain ⟨⟨hlow, hform, hhigh⟩, hforms⟩ := List.forall_mem_cons.1 hwithin.1
    obtain ⟨hgroups, hmore⟩ := List.forall_mem_append.1 hfits
    rcases List.mem_append.1 hnode with hnode | hnode
    · obtain ⟨hstart, hnode, hstop⟩ := bounds_of_mem_nodes hform hgroups node hnode
      exact ⟨Nat.le_trans hlow hstart, hnode, Nat.le_trans hstop hhigh⟩
    · exact bounds_of_mem_nodesAll ⟨hforms, (List.pairwise_cons.1 hwithin.2).2⟩ hmore node hnode

end

end Form

/-- In a form that was read the items of each list stand within the list. -/
theorem Cursor.fits_of_readOne {strict : Bool} {cursor : Cursor} {reading : Reading}
    (h : cursor.readOne strict = .ok reading) :
    reading.form.start ≤ reading.form.stop ∧
      ∀ group ∈ Form.groups reading.form, group.Fits := by
  obtain ⟨offset, cs⟩ := cursor
  cases beginning cs with
  | blank hgap =>
    rw [readOne_blanks hgap] at h
    cases h
    exact ⟨Nat.le_refl _, nofun⟩
  | stray hgap =>
    rw [readOne_stray hgap] at h
    cases h
    exact ⟨Nat.le_refl _, nofun⟩
  | form hstands =>
    rw [eq_of_readOne_layout hstands h]
    exact ⟨Nat.le_of_lt (hstands.bounds offset).2.1,
      fun group hgroup => (Layout.standsIn_of_mem_groups hstands group hgroup).fits⟩

/-! ## Faults at a node -/

/-- What a cause is about, if that is the text of an atom: a name, a numeral or a
command. -/
def Cause.atomText? : Cause → Option String
  | .undefinedName name => some name
  | .badNumeral text => some text
  | .unknownCommand command => some command
  | _ => none

/-- The fault was found at the node: it has the span of the node, and if it is about the
text of an atom the node is that atom. -/
structure Fault.FoundAt (fault : Fault) (node : Form) : Prop where
  span : fault.span = some node.span
  text : ∀ text, fault.cause.atomText? = some text → ∃ start stop, node = .atom text start stop

/-- If a computation fails, the fault was found at one of the nodes. -/
def FaultsIn {α : Type} (nodes : List Form) (result : Except Fault α) : Prop :=
  ∀ fault, result = .error fault → ∃ node ∈ nodes, fault.FoundAt node

namespace FaultsIn

variable {α β : Type} {nodes more : List Form}

theorem ok (value : α) : FaultsIn nodes (.ok value) := nofun

/-- A fault that is about no text has the span of a node. -/
theorem error {cause : Cause} {node : Form} (hnode : node ∈ nodes)
    (h : cause.atomText? = none) :
    FaultsIn nodes (.error (.found cause node.span) : Except Fault α) := by
  rintro _ ⟨⟩
  refine ⟨node, hnode, rfl, fun text htext => ?_⟩
  rw [Fault.found, h] at htext
  cases htext

/-- A fault that is about a text has the span of the atom. -/
theorem error_atom {cause : Cause} {text : String} {start stop : Nat}
    (hnode : .atom text start stop ∈ nodes) (h : cause.atomText? = some text) :
    FaultsIn nodes (.error (.found cause ⟨start, stop⟩) : Except Fault α) := by
  rintro _ ⟨⟩
  refine ⟨_, hnode, rfl, fun other hother => ⟨start, stop, ?_⟩⟩
  rw [Fault.found, h] at hother
  rw [Option.some.inj hother]

theorem mono {result : Except Fault α} (h : FaultsIn nodes result) (hsubset : nodes ⊆ more) :
    FaultsIn more result := by
  intro fault hfault
  obtain ⟨node, hnode, hfound⟩ := h fault hfault
  exact ⟨node, hsubset hnode, hfound⟩

/-- **One computation after another fails where one of them does.** -/
theorem bind {first : Traced α} {next : α → Traced β} (hfirst : FaultsIn nodes first.result)
    (hnext : ∀ value, FaultsIn nodes (next value).result) :
    FaultsIn nodes (first >>= next).result := by
  rw [Traced.result_bind]
  cases hresult : first.result with
  | error fault =>
    rintro _ ⟨⟩
    exact hfirst fault hresult
  | ok value => exact hnext value

end FaultsIn

/-! ## Expressions -/

namespace Expr

open Form (nodes nodesAll mem_nodes_self mem_nodesAll_cons nodesAll_subset_nodes
  nodes_subset_nodesAll)

variable {fractional : Bool}

theorem faultsIn_ofAtom (text : String) (start stop : Nat) (scope : Scope BaseSort) :
    FaultsIn (nodes (.atom text start stop)) (ofAtom fractional scope text ⟨start, stop⟩) := by
  rw [ofAtom]
  split
  · split
    · exact .error_atom (mem_nodes_self _) rfl
    · exact .ok _
  · split
    · exact .ok _
    · split
      · exact .error_atom (mem_nodes_self _) rfl
      · exact .ok _

mutual

/-- **The faults of an expression are found at its nodes.** -/
theorem faultsIn_ofForm : ∀ (form : Form) (scope : Scope BaseSort),
    FaultsIn form.nodes (ofForm fractional scope form).result
  | .atom text start stop, scope => faultsIn_ofAtom text start stop scope
  | .list [] start stop, _ => .error (mem_nodes_self (.list [] start stop)) rfl
  | .list (.list items start' stop' :: rest) start stop, _ =>
    .error (nodesAll_subset_nodes _ start stop
      (nodes_subset_nodesAll List.mem_cons_self (mem_nodes_self (.list items start' stop')))) rfl
  | .list (.atom head p q :: rest) start stop, scope => by
    have hself := mem_nodes_self (.list (.atom head p q :: rest) start stop)
    have hrest : nodesAll rest ⊆ nodes (.list (.atom head p q :: rest) start stop) :=
      List.Subset.trans (List.subset_append_right (nodes (.atom head p q)) _)
        (nodesAll_subset_nodes (.atom head p q :: rest) start stop)
    rw [ofForm]
    split
    · exact faultsIn_ofLet rest scope hself hrest
    · refine ((faultsIn_ofForms rest scope).mono hrest).bind fun args => ?_
      cases ofOperator? head args with
      | some expr => exact .ok _
      | none => exact .error hself rfl

theorem faultsIn_ofForms : ∀ (forms : List Form) (scope : Scope BaseSort),
    FaultsIn (nodesAll forms) (ofForms fractional scope forms).result
  | [], _ => .ok _
  | form :: forms, scope => by
    rw [ofForms]
    exact ((faultsIn_ofForm form scope).mono (List.subset_append_left _ _)).bind fun _ =>
      ((faultsIn_ofForms forms scope).mono (List.subset_append_right _ _)).bind fun _ => .ok _

/-- What is no binding is itself where its fault is found. -/
theorem faultsIn_ofBindings : ∀ (bindings : List Form) (scope : Scope BaseSort),
    FaultsIn (nodesAll bindings) (ofBindings fractional scope bindings).result
  | [], _ => .ok _
  | .list [.atom name p q, value] start stop :: bindings, scope => by
    have hvalue : value.nodes ⊆ nodesAll (.list [.atom name p q, value] start stop :: bindings) :=
      List.Subset.trans
        (List.Subset.trans (nodes_subset_nodesAll (by simp)) (nodesAll_subset_nodes _ start stop))
        (List.subset_append_left _ _)
    rw [ofBindings]
    exact ((faultsIn_ofForm value scope).mono hvalue).bind fun _ => (FaultsIn.ok ()).bind fun _ =>
      ((faultsIn_ofBindings bindings scope).mono (List.subset_append_right _ _)).bind
        fun _ => .ok _
  | .atom _ _ _ :: _, _ => .error mem_nodesAll_cons rfl
  | .list [] _ _ :: _, _ => .error mem_nodesAll_cons rfl
  | .list [.atom _ _ _] _ _ :: _, _ => .error mem_nodesAll_cons rfl
  | .list [.list _ _ _] _ _ :: _, _ => .error mem_nodesAll_cons rfl
  | .list (.list _ _ _ :: _ :: _) _ _ :: _, _ => .error mem_nodesAll_cons rfl
  | .list (.atom _ _ _ :: _ :: _ :: _) _ _ :: _, _ => .error mem_nodesAll_cons rfl

/-- The faults of a `let` are found at the nodes behind its head, or at the `let` itself. -/
theorem faultsIn_ofLet : ∀ (rest : List Form) (scope : Scope BaseSort) {count : Nat}
    {form : Form} {nodes : List Form}, form ∈ nodes → nodesAll rest ⊆ nodes →
      FaultsIn nodes (ofLet fractional scope count form.span rest).result
  | [.list bindings start stop, body], scope, _, _, _, _, hrest => by
    have hbindings : nodesAll bindings ⊆ nodesAll [.list bindings start stop, body] :=
      List.Subset.trans (nodesAll_subset_nodes bindings start stop)
        (List.subset_append_left _ _)
    have hbody : body.nodes ⊆ nodesAll [.list bindings start stop, body] :=
      nodes_subset_nodesAll (by simp)
    rw [ofLet]
    refine ((faultsIn_ofBindings bindings scope).mono
      (List.Subset.trans hbindings hrest)).bind fun bound => ?_
    exact ((faultsIn_ofForm body _).mono (List.Subset.trans hbody hrest)).bind fun _ => .ok _
  | [.atom _ _ _, _], _, _, _, _, _, hrest => .error (hrest mem_nodesAll_cons) rfl
  | [], _, _, _, _, hform, _ => .error hform rfl
  | [.atom _ _ _], _, _, _, _, hform, _ => .error hform rfl
  | [.list _ _ _], _, _, _, _, hform, _ => .error hform rfl
  | .atom _ _ _ :: _ :: _ :: _, _, _, _, _, hform, _ => .error hform rfl
  | .list _ _ _ :: _ :: _ :: _, _, _, _, _, hform, _ => .error hform rfl

end

end Expr

/-! ## Commands -/

/-- **The faults of a command are found at its form, or at its head.** -/
theorem Command.faultsIn_ofForm (form : Form) : FaultsIn form.nodes (Command.ofForm form) := by
  have hself := Form.mem_nodes_self form
  match form with
  | .atom text start stop => exact .error hself rfl
  | .list [] start stop => exact .error hself rfl
  | .list (.list _ _ _ :: _) start stop => exact .error hself rfl
  | .list (.atom head p q :: rest) start stop =>
    rw [Command.ofForm]
    split
    · exact .ok _
    split
    · unfold declaration
      repeat' split
      all_goals first | exact .ok _ | exact .error hself rfl
    split
    · unfold assertion
      split
      · exact .ok _
      · exact .error hself rfl
    split
    · exact .ok _
    split
    · exact .ok _
    · have hhead : .atom head p q ∈ Form.nodesAll (.atom head p q :: rest) :=
        Form.mem_nodesAll_cons
      exact .error_atom (Form.nodesAll_subset_nodes _ start stop hhead) rfl

/-- What is asserted is a part of the form. -/
theorem Command.nodes_subset_of_assert {form body : Form}
    (h : Command.ofForm form = .ok (.assert body)) : body.nodes ⊆ form.nodes := by
  obtain ⟨head, start, stop, rest, p, q, rfl, hcases⟩ := cases_of_ofForm h
  obtain ⟨-, heq⟩ | ⟨-, _, _, _, _, _, -, heq⟩ | ⟨-, _, rfl, heq⟩ | ⟨-, heq⟩ | ⟨-, heq⟩ := hcases
  all_goals cases heq
  exact List.Subset.trans (Form.nodes_subset_nodesAll (by simp))
    (Form.nodesAll_subset_nodes _ p q)

/-! ## Sessions -/

/-- The fault points into the form: it has the span of a node of the form, which stands
within the form, and what it says of a name, a numeral or a command is the text of that
node. -/
def Form.Locates (form : Form) (fault : Fault) : Prop :=
  ∃ node ∈ form.nodes, fault.diagnostic.place = some { span := node.span } ∧
    (form.start ≤ node.start ∧ node.start ≤ node.stop ∧ node.stop ≤ form.stop) ∧
    (fault.diagnostic.code = .undefinedName → ∃ name start stop,
      node = .atom name start stop ∧ fault.diagnostic.params = some [("name", .text name)]) ∧
    (fault.diagnostic.code = .badNumeral → ∃ text start stop,
      node = .atom text start stop ∧ fault.diagnostic.params = some [("text", .text text)]) ∧
    (fault.diagnostic.code = .unknownCommand → ∃ command start stop,
      node = .atom command start stop ∧
        fault.diagnostic.params = some [("command", .text command)])

/-- In a form that was read, what is found at a node is found within the form. -/
theorem Form.locates_of_foundAt {strict : Bool} {cursor : Cursor} {reading : Reading}
    (hread : cursor.readOne strict = .ok reading) {node : Form} (hnode : node ∈ reading.form.nodes)
    {fault : Fault} (hfound : fault.FoundAt node) : reading.form.Locates fault := by
  obtain ⟨cause, span⟩ := fault
  obtain ⟨hspan, htext⟩ := hfound
  obtain ⟨hform, hfits⟩ := Cursor.fits_of_readOne hread
  have hplace : (Fault.mk cause span).diagnostic.place = some { span := node.span } :=
    congrArg (Option.map fun span : Span => ({ span } : Place)) hspan
  refine ⟨node, hnode, hplace, bounds_of_mem_nodes hform hfits node hnode, ?_, ?_, ?_⟩
  all_goals
    intro hcode
    cases cause
    all_goals cases hcode
    obtain ⟨start, stop, hatom⟩ := htext _ rfl
    exact ⟨_, start, stop, hatom, rfl⟩

namespace Session

variable {σ : Type} [Solver σ] {options : Options} {session session' : Session σ}

/-- **The fault of a step is found at a node of the form**, unless it is the solver's. -/
theorem exists_foundAt_of_step {form : Form} {fault : Fault}
    (h : session.step options form = (session', .error fault))
    (hbackend : fault.diagnostic.code ≠ .backend) : ∃ node ∈ form.nodes, fault.FoundAt node := by
  have htakes := takes_step options session form
  rw [h] at htakes
  cases htakes with
  | malformed _ hcommand => exact Command.faultsIn_ofForm form fault hcommand
  | @meaningless body _ _ hcommand helaborated =>
    obtain ⟨node, hnode, hfound⟩ := Expr.faultsIn_ofForm body session.scope fault helaborated
    exact ⟨node, Command.nodes_subset_of_assert hcommand hnode, hfound⟩
  | refused => exact absurd rfl hbackend

/-- **Faults point into the form.** If a session fails on a form that was read, in whatever
text and from whatever offset on, with a fault of an expression or with an unknown command,
then the form locates the fault. -/
theorem fault_located {strict : Bool} {cs : List Char} {offset : Nat} {reading : Reading}
    {fault : Fault} (hread : readAt strict cs offset = .ok reading)
    (hstep : session.step options reading.form = (session', .error fault))
    (hcode : fault.diagnostic.code.isOfExpression = true ∨
      fault.diagnostic.code = .unknownCommand) :
    reading.form.Locates fault := by
  have hbackend : fault.diagnostic.code ≠ .backend := by
    intro heq
    rw [heq] at hcode
    exact absurd hcode (by decide)
  obtain ⟨node, hnode, hfound⟩ := exists_foundAt_of_step hstep hbackend
  exact Form.locates_of_foundAt hread hnode hfound

/-- A name that the `let` binds is known, one that it does not bind is where the fault is. -/
theorem fault_located_let :
    let cs := "(exit) (assert (let ((x true)) (and x y)))".toList
    let session : Session Recorder := { solver := { answers := ⟨[]⟩ } }
    let fault := Fault.found (.undefinedName "y") ⟨38, 39⟩
    ∃ form next session', readAt false cs 6 = .ok ⟨form, next⟩ ∧
      session.step {} form = (session', .error fault) ∧
      fault.diagnostic.code.isOfExpression = true ∧ form.Locates fault := by
  intro cs session fault
  obtain ⟨body, hbody⟩ : ∃ body : Form, body = .list [.atom "let" 16 19,
    .list [.list [.atom "x" 22 23, .atom "true" 24 28] 21 29] 20 30,
    .list [.atom "and" 32 35, .atom "x" 36 37, .atom "y" 38 39] 31 40] 15 41 := ⟨_, rfl⟩
  have hread : readAt false "(exit) (assert (let ((x true)) (and x y)))".toList 6 =
      .ok ⟨.list [.atom "assert" 8 14, body] 7 42, ⟨42, []⟩⟩ := by
    rw [hbody]
    cbv
  have hexpr : (Expr.ofForm true Scope.empty body).result =
      .error (.found (.undefinedName "y") ⟨38, 39⟩) := by
    rw [hbody]
    rfl
  have hstep : session.step {} (.list [.atom "assert" 8 14, body] 7 42) = (_, .error fault) :=
    step_of_takes (.meaningless rfl rfl hexpr)
  have hcode : fault.diagnostic.code.isOfExpression = true := rfl
  exact ⟨_, _, _, hread, hstep, hcode, fault_located hread hstep (.inl hcode)⟩

end Session

end SatScript
