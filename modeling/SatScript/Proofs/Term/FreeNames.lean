import SatScript.Proofs.Term.Elaboration
/-!
# SatScript — the free names of a form

A name is free in a form if it stands where an expression is due and no `let`
around it binds it; a `let` binds its names in its body, and nowhere else. What
a form comes to depends on a scope through these names alone: in scopes that
agree on them it comes to the same, be it an expression or a fault, and with the
same events (`ofForm_congr`). And it does depend on each of them: two scopes in
which a form comes to one expression agree on them
(`agreeOn_of_elaborates`).
-/

namespace SatScript

namespace Form

/-- The names of the bindings of a `let`, those that are malformed left out. -/
def boundNames : List Form → List String
  | [] => []
  | .list [.atom name _ _, _] _ _ :: bindings => name :: boundNames bindings
  | _ :: bindings => boundNames bindings

mutual

/-- The names that an expression takes from around it: atoms that are neither
taken for numerals nor truth values, and that no `let` binds. -/
def freeNames : Form → List String
  | .atom text _ _ =>
    if Numeral.startsNumeral text ∨ text = "true" ∨ text = "false" then [] else [text]
  | .list (.atom head _ _ :: rest) _ _ =>
    if head = "let" then freeInLet rest else freeNamesAll rest
  | .list _ _ _ => []

/-- The free names of what stands behind `let`. The values do not see the names
that are bound, the body does. -/
def freeInLet : List Form → List String
  | [.list bindings _ _, body] =>
    freeInBindings bindings ++ (freeNames body).filter fun name => name ∉ boundNames bindings
  | _ => []

/-- The free names of expressions one after another. -/
def freeNamesAll : List Form → List String
  | [] => []
  | form :: forms => freeNames form ++ freeNamesAll forms

/-- The free names of the values of bindings. -/
def freeInBindings : List Form → List String
  | [] => []
  | .list [.atom _ _ _, value] _ _ :: bindings => freeNames value ++ freeInBindings bindings
  | _ :: bindings => freeInBindings bindings

end

end Form

/-! ## Scopes that agree -/

namespace Scope

variable {α : Type} {scope scope' : Scope α} {bindings : List (String × α)} {name : String}

/-- The scopes have the same values for the names. -/
def AgreeOn (names : List String) (scope scope' : Scope α) : Prop :=
  ∀ name ∈ names, scope.lookup name = scope'.lookup name

instance [DecidableEq α] (names : List String) : Decidable (AgreeOn names scope scope') :=
  List.decidableBAll (fun name => scope.lookup name = scope'.lookup name) names

theorem agreeOn_append {first second : List String} :
    AgreeOn (first ++ second) scope scope' ↔
      AgreeOn first scope scope' ∧ AgreeOn second scope scope' :=
  List.forall_mem_append

/-- A name that is not bound is looked up further out. -/
theorem lookup_extend_of_not_mem (h : name ∉ bindings.map Prod.fst) :
    (scope.extend bindings).lookup name = scope.lookup name := by
  have hnone : bindings.reverse.lookup name = none := by
    rw [List.lookup_eq_none_iff]
    intro binding hbinding
    rw [bne_iff_ne]
    rintro rfl
    exact h (List.mem_map_of_mem (List.mem_reverse.1 hbinding))
  rw [lookup_extend, Table.get?_ofList, hnone, Option.none_or]

/-- A name that is bound has a value, whatever the scope around it is. -/
theorem exists_lookup_extend (h : name ∈ bindings.map Prod.fst) :
    ∃ value, ∀ scope : Scope α, (scope.extend bindings).lookup name = some value := by
  obtain ⟨binding, hbinding, rfl⟩ := List.mem_map.1 h
  cases hvalue : bindings.reverse.lookup binding.1 with
  | none =>
    rw [List.lookup_eq_none_iff] at hvalue
    simpa using hvalue binding (List.mem_reverse.2 hbinding)
  | some value =>
    refine ⟨value, fun scope => ?_⟩
    rw [lookup_extend, Table.get?_ofList, hvalue, Option.some_or]

/-- **Scopes agree under the same bindings if they agree on the names that these
do not bind.** -/
theorem agreeOn_extend_iff {names : List String} :
    AgreeOn names (scope.extend bindings) (scope'.extend bindings) ↔
      AgreeOn (names.filter fun name => name ∉ bindings.map Prod.fst) scope scope' := by
  constructor
  · intro h name hname
    obtain ⟨hname, hfree⟩ := List.mem_filter.1 hname
    rw [decide_eq_true_eq] at hfree
    rw [← lookup_extend_of_not_mem hfree, h name hname, lookup_extend_of_not_mem hfree]
  · intro h name hname
    by_cases hbound : name ∈ bindings.map Prod.fst
    · obtain ⟨value, hvalue⟩ := exists_lookup_extend hbound
      rw [hvalue, hvalue]
    · rw [lookup_extend_of_not_mem hbound, lookup_extend_of_not_mem hbound]
      exact h name (List.mem_filter.2 ⟨hname, decide_eq_true hbound⟩)

end Scope

/-- What is done with a value matters for the values that there are. -/
theorem Traced.bind_congr {α β : Type} {first : Traced α} {next next' : α → Traced β}
    (h : ∀ value, first.result = .ok value → next value = next' value) :
    (first >>= next) = (first >>= next') := by
  show first.andThen next = first.andThen next'
  rw [andThen, andThen]
  cases hresult : first.result with
  | error fault => rfl
  | ok value => simp only [h value hresult]

namespace Expr

open Form (freeNames freeInLet freeNamesAll freeInBindings boundNames)
open Scope (AgreeOn agreeOn_append agreeOn_extend_iff)

variable {fractional : Bool}

/-- The names that get a sort are those of the bindings. -/
theorem map_fst_boundSorts {scope : Scope BaseSort} {bindings : List Form} {bound : List Expr}
    (h : ElaboratesBindings fractional scope bindings bound) :
    (boundSorts bound).map Prod.fst = boundNames bindings := by
  induction bindings generalizing bound with
  | nil =>
    cases h
    rfl
  | cons binding bindings ih =>
    cases h with
    | cons _ hmore =>
      rw [boundNames, ← ih hmore]
      rfl

mutual

/-- **A form comes to the same in scopes that agree on its free names.** -/
theorem ofForm_congr : ∀ (form : Form) {scope scope' : Scope BaseSort},
    AgreeOn form.freeNames scope scope' →
    ofForm fractional scope form = ofForm fractional scope' form
  | .atom text start stop, scope, scope', h => by
    rw [ofForm, ofForm, ofAtom, ofAtom]
    split
    · rfl
    · rename_i hnumeral
      split
      · rfl
      · rename_i htruth
        rw [freeNames, if_neg (not_or.2 ⟨hnumeral, htruth⟩)] at h
        rw [h text (List.mem_singleton_self _)]
  | .list [] _ _, _, _, _ => rfl
  | .list (.list _ _ _ :: _) _ _, _, _, _ => rfl
  | .list (.atom head _ _ :: rest) _ _, scope, scope', h => by
    rw [freeNames] at h
    rw [ofForm, ofForm]
    split at h
    · rename_i hlet
      rw [if_pos hlet, if_pos hlet, ofLet_congr rest h]
    · rename_i hlet
      rw [if_neg hlet, if_neg hlet, ofForms_congr rest h]

theorem ofForms_congr : ∀ (forms : List Form) {scope scope' : Scope BaseSort},
    AgreeOn (freeNamesAll forms) scope scope' →
    ofForms fractional scope forms = ofForms fractional scope' forms
  | [], _, _, _ => rfl
  | form :: forms, _, _, h => by
    rw [freeNamesAll, agreeOn_append] at h
    rw [ofForms, ofForms, ofForm_congr form h.1, ofForms_congr forms h.2]

theorem ofBindings_congr : ∀ (bindings : List Form) {scope scope' : Scope BaseSort},
    AgreeOn (freeInBindings bindings) scope scope' →
    ofBindings fractional scope bindings = ofBindings fractional scope' bindings
  | [], _, _, _ => rfl
  | .list [.atom _ _ _, value] _ _ :: bindings, _, _, h => by
    rw [freeInBindings, agreeOn_append] at h
    rw [ofBindings, ofBindings, ofForm_congr value h.1, ofBindings_congr bindings h.2]
  | .atom _ _ _ :: _, _, _, _ => rfl
  | .list [] _ _ :: _, _, _, _ => rfl
  | .list [.atom _ _ _] _ _ :: _, _, _, _ => rfl
  | .list [.list _ _ _] _ _ :: _, _, _, _ => rfl
  | .list (.list _ _ _ :: _ :: _) _ _ :: _, _, _, _ => rfl
  | .list (.atom _ _ _ :: _ :: _ :: _) _ _ :: _, _, _, _ => rfl

theorem ofLet_congr : ∀ (rest : List Form) {scope scope' : Scope BaseSort} {count : Nat}
    {span : Span}, AgreeOn (freeInLet rest) scope scope' →
    ofLet fractional scope count span rest = ofLet fractional scope' count span rest
  | [.list bindings _ _, body], scope, scope', _, _, h => by
    rw [freeInLet, agreeOn_append] at h
    rw [ofLet, ofLet, ofBindings_congr bindings h.1]
    -- the body sees the same bindings, inside scopes that agree on its other names
    refine Traced.bind_congr fun bound hbound => ?_
    rw [← map_fst_boundSorts (elaborates_of_ofBindings bindings hbound), ← agreeOn_extend_iff] at h
    rw [ofForm_congr body h.2]
  | [.atom _ _ _, _], _, _, _, _, _ => rfl
  | [], _, _, _, _, _ => rfl
  | [.atom _ _ _], _, _, _, _, _ => rfl
  | [.list _ _ _], _, _, _, _, _ => rfl
  | .atom _ _ _ :: _ :: _ :: _, _, _, _, _, _ => rfl
  | .list _ _ _ :: _ :: _ :: _, _, _, _, _, _ => rfl

end

/-- A `let` is made of its bindings and its body. -/
theorem letIn_inj {bound bound' : List Expr} {inner inner' : Expr}
    (h : letIn bound inner = letIn bound' inner') : bound = bound' ∧ inner = inner' := by
  rw [letIn, letIn, node.injEq] at h
  obtain ⟨hbound, hinner⟩ := List.append_inj' h.2.2 rfl
  exact ⟨hbound, List.singleton_inj.1 hinner⟩

/-- The expression of an operator tells its arguments. -/
theorem ofOperator?_inj {operator : String} {args args' : List Expr} {expr : Expr}
    (h : ofOperator? operator args = some expr) (h' : ofOperator? operator args' = some expr) :
    args = args' := by
  obtain ⟨sort, rfl⟩ := exists_node_of_ofOperator? h
  obtain ⟨sort', hnode⟩ := exists_node_of_ofOperator? h'
  rw [node.injEq] at hnode
  exact hnode.2.2

/-- An atom that stands for a name comes to one expression only where the name
has one sort. -/
theorem agreeOn_of_ofAtom {scope scope' : Scope BaseSort} {text : String} {start stop : Nat}
    {span span' : Span} {expr : Expr} (h : ofAtom fractional scope text span = .ok expr)
    (h' : ofAtom fractional scope' text span' = .ok expr) :
    AgreeOn (freeNames (.atom text start stop)) scope scope' := by
  rw [freeNames]
  split
  · exact List.forall_mem_nil _
  · rename_i hname
    obtain ⟨hnumeral, htruth⟩ := not_or.1 hname
    rw [ofAtom, if_neg hnumeral, if_neg htruth] at h h'
    refine List.forall_mem_singleton.2 ?_
    cases hsort : scope.lookup text with
    | none =>
      rw [hsort] at h
      cases h
    | some sort =>
      rw [hsort] at h
      cases hsort' : scope'.lookup text with
      | none =>
        rw [hsort'] at h'
        cases h'
      | some sort' =>
        rw [hsort'] at h'
        cases h
        cases h'
        rfl

mutual

/-- **Scopes in which a form comes to one expression agree on its free names.** -/
theorem agreeOn_of_elaborates : ∀ {scope scope' : Scope BaseSort} {form : Form}
    {expr expr' : Expr}, Elaborates fractional scope form expr →
    Elaborates fractional scope' form expr' → expr = expr' → AgreeOn form.freeNames scope scope'
  | _, _, _, _, _, .atom h, h', heq => by
    cases h' with
    | atom h' => exact agreeOn_of_ofAtom h (heq ▸ h')
  | _, _, _, _, _, .operator hlet hargs hfound, h', heq => by
    cases h' with
    | letIn _ _ => exact absurd rfl hlet
    | operator _ hargs' hfound' =>
      rw [freeNames, if_neg hlet]
      exact agreeOn_of_elaboratesAll hargs hargs' (ofOperator?_inj hfound (heq ▸ hfound'))
  | scope, scope', _, _, _, .letIn hbound hinner, h', heq => by
    generalize hform : Form.list _ _ _ = form at h'
    cases h' with
    | atom _ => cases hform
    | operator hlet _ _ =>
      cases hform
      exact absurd rfl hlet
    | letIn hbound' hinner' =>
      cases hform
      obtain ⟨rfl, rfl⟩ := letIn_inj heq
      rw [freeNames, if_pos rfl, freeInLet, agreeOn_append, ← map_fst_boundSorts hbound,
        ← agreeOn_extend_iff]
      exact ⟨agreeOn_of_elaboratesBindings hbound hbound' rfl,
        agreeOn_of_elaborates hinner hinner' rfl⟩

theorem agreeOn_of_elaboratesAll : ∀ {scope scope' : Scope BaseSort} {forms : List Form}
    {exprs exprs' : List Expr}, ElaboratesAll fractional scope forms exprs →
    ElaboratesAll fractional scope' forms exprs' → exprs = exprs' →
    AgreeOn (freeNamesAll forms) scope scope'
  | _, _, _, _, _, .nil, _, _ => List.forall_mem_nil _
  | _, _, _, _, _, .cons hform hforms, .cons hform' hforms', heq => by
    obtain ⟨hexpr, hexprs⟩ := List.cons.inj heq
    rw [freeNamesAll, agreeOn_append]
    exact ⟨agreeOn_of_elaborates hform hform' hexpr,
      agreeOn_of_elaboratesAll hforms hforms' hexprs⟩

theorem agreeOn_of_elaboratesBindings : ∀ {scope scope' : Scope BaseSort}
    {bindings : List Form} {bound bound' : List Expr},
    ElaboratesBindings fractional scope bindings bound →
    ElaboratesBindings fractional scope' bindings bound' → bound = bound' →
    AgreeOn (freeInBindings bindings) scope scope'
  | _, _, _, _, _, .nil, _, _ => List.forall_mem_nil _
  | _, _, _, _, _, .cons hvalue hmore, .cons hvalue' hmore', heq => by
    obtain ⟨hbound, hbounds⟩ := List.cons.inj heq
    rw [Expr.bound, Expr.bound, node.injEq] at hbound
    rw [freeInBindings, agreeOn_append]
    exact ⟨agreeOn_of_elaborates hvalue hvalue' (List.singleton_inj.1 hbound.2.2),
      agreeOn_of_elaboratesBindings hmore hmore' hbounds⟩

end

/-- **What a form comes to depends on a scope through its free names**: on these
alone, for in scopes that agree on them it comes to the same expression or the
same fault, with the same events; and on each of them, for scopes in which it
comes to one expression agree on them. So a name that a `let` binds is seen in
the body, and elsewhere it is looked up in the scope around the `let`. -/
theorem ofForm_depends_on_freeNames (fractional : Bool) (scope scope' : Scope BaseSort)
    (form : Form) :
    (AgreeOn form.freeNames scope scope' →
      ofForm fractional scope form = ofForm fractional scope' form) ∧
    ∀ expr, (ofForm fractional scope form).result = .ok expr →
      (ofForm fractional scope' form).result = .ok expr →
      AgreeOn form.freeNames scope scope' :=
  ⟨ofForm_congr form, fun _ h h' =>
    agreeOn_of_elaborates (elaborates_of_ofForm form h) (elaborates_of_ofForm form h') rfl⟩

/-- The scope that binds `x` elsewhere, and has its other names in two frames,
does not tell in `(and (let ((x y)) x) z)`. -/
theorem ofForm_depends_on_freeNames_let :
    let form := Form.ofItems [.ofText "and",
      .ofItems [.ofText "let", .ofItems [.ofItems [.ofText "x", .ofText "y"]], .ofText "x"],
      .ofText "z"]
    let scope := Scope.empty.extend [("y", .bool), ("z", .bool)]
    let scope' := (Scope.empty.extend [("y", .bool)]).extend [("x", .real), ("z", .bool)]
    AgreeOn form.freeNames scope scope' ∧
      (ofForm true scope form).events = [.binding "x" "y"] ∧
      ofForm true scope form = ofForm true scope' form := by
  intro form scope scope'
  have hresult : (ofForm true scope form).result = .ok (.node "and" .bool
      [letIn [.bound "x" (.leaf "y" .bool)] (.leaf "x" .bool), .leaf "z" .bool]) := by rfl
  have hresult' : (ofForm true scope' form).result = .ok (.node "and" .bool
      [letIn [.bound "x" (.leaf "y" .bool)] (.leaf "x" .bool), .leaf "z" .bool]) := by rfl
  have hagree := (ofForm_depends_on_freeNames true scope scope' form).2 _ hresult hresult'
  exact ⟨hagree, by rfl, (ofForm_depends_on_freeNames true scope scope' form).1 hagree⟩

/-- The name that a `let` binds is free behind it. -/
example : freeNames (.ofItems [.ofText "and",
    .ofItems [.ofText "let", .ofItems [.ofItems [.ofText "x", .ofText "x"]], .ofText "x"],
    .ofText "x"]) = ["x", "x"] := by decide

end Expr

end SatScript
