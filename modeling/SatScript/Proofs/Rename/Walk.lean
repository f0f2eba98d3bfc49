import SatScript.Proofs.Layout.Leaves
import SatScript.Rename.Basic
/-!
# SatScript — the names of a script and its atoms

`Occurrence.inForm` walks over an expression and lists names with what they
resolve to. This file relates the list to the atoms of the expression: the
names are some of the atoms, in order (`sublist_leaves`), and what they
resolve to is bound at one of the atoms (`boundIn_of_mem`).
-/

namespace SatScript

/-- The atom of an occurrence. -/
def Occurrence.leaf (occurrence : Occurrence) : Leaf :=
  ⟨occurrence.text, occurrence.start, occurrence.stop⟩

namespace Occurrence

variable {source : String} {globals : List String}

/-! ## Which forms the walk takes apart -/

/-- What stands behind `let` but is no bindings with a body is walked over as
any other expressions. -/
theorem inLet_of_not_let {scope : Scope Target} {form : Form} {forms : List Form}
    (h : ∀ bindings start stop body, form = .list bindings start stop → forms = [body] → False) :
    inLet source globals scope (form :: forms) = inForms source globals scope (form :: forms) := by
  rw [inLet, inForms]
  exact h

/-- A binding without a name is passed over. -/
theorem inBindings_of_not_binding {scope : Scope Target} {form : Form} {forms : List Form}
    (hvalue : ∀ name start stop value tail start' stop',
      form = .list (.atom name start stop :: value :: tail) start' stop' → False)
    (hname : ∀ name start stop start' stop',
      form = .list [.atom name start stop] start' stop' → False) :
    inBindings source globals scope (form :: forms) = inBindings source globals scope forms := by
  rw [inBindings]
  · exact hvalue
  · exact hname

/-- The atoms of a list headed by an atom. -/
theorem leaves_headed (name : String) (start stop start' stop' : Nat) (items : List Form) :
    (Form.list (.atom name start stop :: items) start' stop').leaves =
      ⟨name, start, stop⟩ :: Form.leavesAll items := rfl

/-- The atoms of bindings and of the body behind them. -/
theorem leavesAll_bound (items : List Form) (start stop : Nat) (body : Form) :
    Form.leavesAll [.list items start stop, body] = Form.leavesAll items ++ body.leaves := by
  rw [Form.leavesAll, Form.leavesAll, Form.leavesAll, Form.leaves, List.append_nil]

/-- The atoms of a binding and of the bindings behind it. -/
theorem leavesAll_binding (name : String) (start stop start' stop' : Nat) (value : Form)
    (forms : List Form) :
    Form.leavesAll (.list [.atom name start stop, value] start' stop' :: forms) =
      ⟨name, start, stop⟩ :: (value.leaves ++ Form.leavesAll forms) := by
  rw [Form.leavesAll, leaves_headed, Form.leavesAll, Form.leavesAll, List.append_nil]
  rfl

/-! ## Names are atoms -/

/-- **The names of an expression are some of its atoms, in order.** -/
theorem sublist_leaves :
    (∀ (scope : Scope Target) (form : Form),
      ((inForm source globals scope form).map leaf).Sublist form.leaves) ∧
    (∀ (scope : Scope Target) (forms : List Form),
      ((inForms source globals scope forms).map leaf).Sublist (Form.leavesAll forms)) ∧
    (∀ (scope : Scope Target) (forms : List Form),
      ((inLet source globals scope forms).map leaf).Sublist (Form.leavesAll forms)) ∧
    (∀ (scope : Scope Target) (forms : List Form),
      ((inBindings source globals scope forms).map leaf).Sublist (Form.leavesAll forms)) := by
  refine inForm.mutual_induct source _ _ _ _ ?numeral ?name ?nothing ?letForm ?applied ?nested
    ?noForms ?moreForms ?bound ?noLet ?otherLet ?noBindings ?value ?noValue ?otherBinding
  case numeral =>
    intro scope text start stop h
    rw [inForm, if_pos h]
    exact List.nil_sublist _
  case name =>
    intro scope text start stop h
    rw [inForm, if_neg h]
    exact List.Sublist.refl _
  case nothing =>
    intro scope start stop
    exact List.nil_sublist _
  case letForm =>
    intro scope start stop rest start' stop' ih
    rw [inForm, if_pos rfl, leaves_headed]
    exact ih.cons _
  case applied =>
    intro scope head start stop rest start' stop' hhead ih
    rw [inForm, if_neg hhead, leaves_headed]
    exact ih.cons _
  case nested =>
    intro scope items start stop rest start' stop' ihitems ihrest
    rw [inForm, Form.leaves, Form.leavesAll, List.map_append]
    exact ihitems.append ihrest
  case noForms =>
    intro scope
    exact List.nil_sublist _
  case moreForms =>
    intro scope form forms ihform ihforms
    rw [inForms, Form.leavesAll, List.map_append]
    exact ihform.append ihforms
  case bound =>
    intro scope bindings start stop body ihbindings ihbody
    rw [inLet, Form.leavesAll, Form.leavesAll, Form.leavesAll, List.append_nil, Form.leaves,
      List.map_append]
    exact ihbindings.append ihbody
  case noLet =>
    intro scope
    exact List.nil_sublist _
  case otherLet =>
    intro scope form forms h ihform ihforms
    rw [inLet_of_not_let h, inForms, Form.leavesAll, List.map_append]
    exact ihform.append ihforms
  case noBindings =>
    intro scope
    exact List.nil_sublist _
  case value =>
    intro scope name start stop value tail start' stop' rest ihvalue ihrest
    rw [inBindings, Form.leavesAll, leaves_headed, Form.leavesAll, List.map_cons, List.map_append,
      List.cons_append, List.append_assoc]
    exact (ihvalue.append (ihrest.trans (List.sublist_append_right _ _))).cons_cons _
  case noValue =>
    intro scope name start stop start' stop' rest ih
    rw [inBindings, Form.leavesAll, leaves_headed, Form.leavesAll, List.map_cons]
    exact ih.cons_cons _
  case otherBinding =>
    intro scope form forms hvalue hname ih
    rw [inBindings_of_not_binding hvalue hname, Form.leavesAll]
    exact ih.trans (List.sublist_append_right _ _)

end Occurrence

/-! ## What names resolve to -/

/-- What a name may resolve to: the global of that name, or a local that is
bound at an atom of that name. -/
def Target.BoundIn (source : String) (globals : List String) (leaves : List Leaf)
    (text : String) : Target → Prop
  | .global name => name = text ∧ name ∈ globals
  | .local name src offset =>
    name = text ∧ src = source ∧ ∃ leaf ∈ leaves, leaf.text = text ∧ offset = leaf.start

/-- The names of a scope are locals that are bound at atoms. -/
def Scope.BoundIn (source : String) (leaves : List Leaf) (scope : Scope Target) : Prop :=
  ∀ name target, scope.lookup name = some target →
    ∃ leaf ∈ leaves, leaf.text = name ∧ target = .local name source leaf.start

theorem Target.BoundIn.name_eq {source : String} {globals : List String} {leaves : List Leaf}
    {text : String} {target : Target} (h : target.BoundIn source globals leaves text) :
    target.name = text := by
  cases target with
  | global name => exact h.1
  | «local» name src offset => exact h.1

namespace Occurrence

variable {source : String} {globals : List String} {leaves : List Leaf}

/-- The locals of bindings are bound at their atoms. -/
theorem mem_binders {bindings : List Form} {name : String} {target : Target}
    (h : (name, target) ∈ binders source bindings) :
    ∃ leaf ∈ Form.leavesAll bindings,
      leaf.text = name ∧ target = .local name source leaf.start := by
  induction bindings with
  | nil => cases h
  | cons binding bindings ih =>
    have hmore : (name, target) ∈ binders source bindings →
        ∃ leaf ∈ Form.leavesAll (binding :: bindings),
          leaf.text = name ∧ target = .local name source leaf.start := by
      intro hin
      obtain ⟨leaf, hleaf, hname⟩ := ih hin
      exact ⟨leaf, List.mem_append_right _ hleaf, hname⟩
    match binding with
    | .atom _ _ _ => exact hmore h
    | .list [] _ _ => exact hmore h
    | .list (.list _ _ _ :: _) _ _ => exact hmore h
    | .list (.atom text start stop :: items) start' stop' =>
      rcases List.mem_cons.1 h with heq | h
      · cases heq
        refine ⟨⟨name, start, stop⟩, ?_, rfl, rfl⟩
        rw [Form.leavesAll, leaves_headed]
        exact List.mem_append_left _ List.mem_cons_self
      · exact hmore h

/-- The names that bindings introduce are bound at their atoms. -/
theorem boundIn_extend {scope : Scope Target} {bindings : List Form}
    (hscope : scope.BoundIn source leaves) (hin : ∀ leaf ∈ Form.leavesAll bindings, leaf ∈ leaves) :
    (scope.extend (binders source bindings)).BoundIn source leaves := by
  intro name target hlookup
  rw [Scope.lookup_extend, Table.get?_ofList] at hlookup
  cases hfound : (binders source bindings).reverse.lookup name with
  | none =>
    rw [hfound, Option.none_or] at hlookup
    exact hscope name target hlookup
  | some found =>
    rw [hfound, Option.some_or] at hlookup
    cases hlookup
    obtain ⟨l₁, l₂, heq, -⟩ := List.lookup_eq_some_iff.1 hfound
    have hmem : (name, target) ∈ binders source bindings := by
      rw [← List.mem_reverse, heq]
      exact List.mem_append_right _ List.mem_cons_self
    obtain ⟨leaf, hleaf, hname⟩ := mem_binders hmem
    exact ⟨leaf, hin leaf hleaf, hname⟩

/-- A name that resolves is bound. -/
theorem boundIn_resolve {scope : Scope Target} {text : String} {target : Target}
    (hscope : scope.BoundIn source leaves) (h : resolve globals scope text = some target) :
    target.BoundIn source globals leaves text := by
  rw [resolve] at h
  cases hfound : scope.lookup text with
  | some found =>
    rw [hfound] at h
    cases h
    obtain ⟨leaf, hleaf, hname, rfl⟩ := hscope text target hfound
    exact ⟨rfl, rfl, leaf, hleaf, hname, rfl⟩
  | none =>
    rw [hfound] at h
    simp only at h
    split at h
    · rename_i hcontains
      cases h
      exact ⟨rfl, List.contains_iff_mem.1 hcontains⟩
    · cases h

/-- **What a name resolves to is bound**: it is a declared global, or a local
that is bound at an atom of that name. -/
theorem boundIn_of_mem :
    (∀ (scope : Scope Target) (form : Form), scope.BoundIn source leaves →
      (∀ leaf ∈ form.leaves, leaf ∈ leaves) → ∀ occurrence ∈ inForm source globals scope form,
        ∀ target, occurrence.target = some target →
          target.BoundIn source globals leaves occurrence.text) ∧
    (∀ (scope : Scope Target) (forms : List Form), scope.BoundIn source leaves →
      (∀ leaf ∈ Form.leavesAll forms, leaf ∈ leaves) →
      ∀ occurrence ∈ inForms source globals scope forms,
        ∀ target, occurrence.target = some target →
          target.BoundIn source globals leaves occurrence.text) ∧
    (∀ (scope : Scope Target) (forms : List Form), scope.BoundIn source leaves →
      (∀ leaf ∈ Form.leavesAll forms, leaf ∈ leaves) →
      ∀ occurrence ∈ inLet source globals scope forms,
        ∀ target, occurrence.target = some target →
          target.BoundIn source globals leaves occurrence.text) ∧
    (∀ (scope : Scope Target) (forms : List Form), scope.BoundIn source leaves →
      (∀ leaf ∈ Form.leavesAll forms, leaf ∈ leaves) →
      ∀ occurrence ∈ inBindings source globals scope forms,
        ∀ target, occurrence.target = some target →
          target.BoundIn source globals leaves occurrence.text) := by
  -- the induction is on the walk; the scope holds what was bound on the way
  refine inForm.mutual_induct source _ _ _ _ ?numeral ?name ?nothing ?letForm ?applied ?nested
    ?noForms ?moreForms ?bound ?noLet ?otherLet ?noBindings ?value ?noValue ?otherBinding
  case numeral =>
    intro scope text start stop h hscope hin occurrence hmem
    rw [inForm, if_pos h] at hmem
    cases hmem
  case name =>
    intro scope text start stop h hscope hin occurrence hmem target htarget
    rw [inForm, if_neg h, List.mem_singleton] at hmem
    subst hmem
    exact boundIn_resolve hscope htarget
  case nothing =>
    intro scope start stop hscope hin occurrence hmem
    cases hmem
  case letForm =>
    intro scope start stop rest start' stop' ih hscope hin occurrence hmem
    rw [inForm, if_pos rfl] at hmem
    exact ih hscope (fun leaf hleaf => hin leaf (List.mem_cons_of_mem _ hleaf)) occurrence hmem
  case applied =>
    intro scope head start stop rest start' stop' hhead ih hscope hin occurrence hmem
    rw [inForm, if_neg hhead] at hmem
    exact ih hscope (fun leaf hleaf => hin leaf (List.mem_cons_of_mem _ hleaf)) occurrence hmem
  case nested =>
    intro scope items start stop rest start' stop' ihitems ihrest hscope hin occurrence hmem
    obtain ⟨hitems, hrest⟩ := List.forall_mem_append.1 hin
    rw [inForm, List.mem_append] at hmem
    rcases hmem with hmem | hmem
    · exact ihitems hscope hitems occurrence hmem
    · exact ihrest hscope hrest occurrence hmem
  case noForms =>
    intro scope hscope hin occurrence hmem
    cases hmem
  case moreForms =>
    intro scope form forms ihform ihforms hscope hin occurrence hmem
    obtain ⟨hform, hforms⟩ := List.forall_mem_append.1 hin
    rw [inForms, List.mem_append] at hmem
    rcases hmem with hmem | hmem
    · exact ihform hscope hform occurrence hmem
    · exact ihforms hscope hforms occurrence hmem
  case bound =>
    intro scope bindings start stop body ihbindings ihbody hscope hin occurrence hmem
    obtain ⟨hbindings, hbodies⟩ := List.forall_mem_append.1 hin
    obtain ⟨hbody, -⟩ := List.forall_mem_append.1 hbodies
    rw [inLet, List.mem_append] at hmem
    rcases hmem with hmem | hmem
    · exact ihbindings hscope hbindings occurrence hmem
    · exact ihbody (boundIn_extend hscope hbindings) hbody occurrence hmem
  case noLet =>
    intro scope hscope hin occurrence hmem
    cases hmem
  case otherLet =>
    intro scope form forms h ihform ihforms hscope hin occurrence hmem
    obtain ⟨hform, hforms⟩ := List.forall_mem_append.1 hin
    rw [inLet_of_not_let h, inForms, List.mem_append] at hmem
    rcases hmem with hmem | hmem
    · exact ihform hscope hform occurrence hmem
    · exact ihforms hscope hforms occurrence hmem
  case noBindings =>
    intro scope hscope hin occurrence hmem
    cases hmem
  case value =>
    intro scope name start stop value tail start' stop' rest ihvalue ihrest hscope hin occurrence
      hmem
    obtain ⟨hbinding, hrest⟩ := List.forall_mem_append.1 hin
    rw [leaves_headed, Form.leavesAll] at hbinding
    obtain ⟨hname, hvalues⟩ := List.forall_mem_cons.1 hbinding
    obtain ⟨hvalue, -⟩ := List.forall_mem_append.1 hvalues
    rw [inBindings, List.mem_cons, List.mem_append] at hmem
    rcases hmem with rfl | hmem | hmem
    · intro target htarget
      cases htarget
      exact ⟨rfl, rfl, ⟨name, start, stop⟩, hname, rfl, rfl⟩
    · exact ihvalue hscope hvalue occurrence hmem
    · exact ihrest hscope hrest occurrence hmem
  case noValue =>
    intro scope name start stop start' stop' rest ih hscope hin occurrence hmem
    rw [Form.leavesAll, leaves_headed, Form.leavesAll] at hin
    rw [inBindings, List.mem_cons] at hmem
    rcases hmem with rfl | hmem
    · intro target htarget
      cases htarget
      exact ⟨rfl, rfl, ⟨name, start, stop⟩, hin _ List.mem_cons_self, rfl, rfl⟩
    · exact ih hscope (fun leaf hleaf => hin leaf (List.mem_cons_of_mem _ hleaf)) occurrence hmem
  case otherBinding =>
    intro scope form forms hvalue hname ih hscope hin occurrence hmem
    rw [inBindings_of_not_binding hvalue hname] at hmem
    exact ih hscope (fun leaf hleaf => hin leaf (List.mem_append_right _ hleaf)) occurrence hmem

end Occurrence

end SatScript
