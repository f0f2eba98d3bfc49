import SatScript.Proofs.Term.Elaboration
import SatScript.Proofs.Term.Sorting
/-!
# SatScript — the sort that is assigned is the sort of the term

The elaboration assigns sorts without a look at arguments: an operator yields
truth values, or has the sort of its last argument. The lowering finds sorts by
checking. Where it succeeds the two are the same (`sort_eq_of_elaborated`), for
an operator that is checked has a last argument of the sort that it yields. Two
things are left out: `distinct`, which yields truth values and is not assigned
them, and a list that is an atom alone, an operator for the one and a name for
the other.
-/

namespace SatScript

/-! ## Where an operator is applied -/

namespace Form

mutual

/-- Whether the operator is applied in the form. A name that a `let` binds stands at
the head of a list too and is no operator. -/
def applies (operator : String) : Form → Bool
  | .atom _ _ _ => false
  | .list [] _ _ => false
  | .list (.list items p q :: rest) _ _ =>
    applies operator (.list items p q) || appliesAny operator rest
  | .list (.atom head _ _ :: rest) _ _ =>
    if head = "let" then appliesBehindLet operator rest
    else head == operator || appliesAny operator rest

/-- Whether it is applied in one of the forms. -/
def appliesAny (operator : String) : List Form → Bool
  | [] => false
  | form :: forms => form.applies operator || appliesAny operator forms

/-- Whether it is applied in what stands behind `let`. -/
def appliesBehindLet (operator : String) : List Form → Bool
  | [.list bindings _ _, body] => appliesInValues operator bindings || body.applies operator
  | [] => false
  | form :: forms => form.applies operator || appliesAny operator forms

/-- Whether it is applied in a value that is bound. -/
def appliesInValues (operator : String) : List Form → Bool
  | [] => false
  | .list [.atom _ _ _, value] _ _ :: bindings =>
    value.applies operator || appliesInValues operator bindings
  | binding :: bindings => binding.applies operator || appliesInValues operator bindings

end

end Form

namespace BaseSort

/-- **What the lowering admits is of the sort that is assigned**: an operator yields
truth values, or something of the sort of its last argument. -/
theorem assigned_of_admitted? {operator : String} {sorts : List BaseSort} {sort : BaseSort}
    (h : admitted? operator sorts = some sort) (hdistinct : operator ≠ "distinct")
    (hne : sorts ≠ []) :
    (if Expr.yieldsBool operator then some .bool else sorts.getLast?) = some sort := by
  have hlast (hreal : sorts.all (· == .real) = true) : sorts.getLast? = some .real := by
    rw [List.getLast?_eq_some_getLast hne,
      beq_iff_eq.1 (List.all_eq_true.1 hreal _ (List.getLast_mem hne))]
  unfold admitted? at h
  split at h
  · -- a comparison of one argument, whatever its sort is
    rename_i hunchecked
    cases h
    have hyields : Expr.yieldsBool operator = true := by
      simp only [unchecked, Bool.or_eq_true, beq_iff_eq, hdistinct, false_or, Bool.and_eq_true,
        List.contains_cons, List.contains_nil, Bool.or_false] at hunchecked
      rcases hunchecked.1 with rfl | rfl | rfl | rfl <;> rfl
    rw [if_pos hyields]
  · unfold proper? at h
    split at h
    case h_6 => exact absurd rfl hdistinct
    case h_11 | h_12 | h_13 | h_14 =>
      obtain ⟨hreal, rfl⟩ := provided_eq_some_iff.1 h
      exact hlast hreal
    case h_15 =>
      unfold choice? at h
      split at h
      · rename_i yes no
        obtain ⟨hsame, rfl⟩ := provided_eq_some_iff.1 h
        rw [beq_iff_eq.1 hsame]
        rfl
      · cases h
    case h_16 => cases h
    all_goals
      obtain ⟨-, rfl⟩ := provided_eq_some_iff.1 h
      rfl

end BaseSort

namespace Expr

/-- The sort that an operator is assigned. -/
theorem assigned_of_ofOperator? {operator : String} {args : List Expr} {expr : Expr}
    (h : ofOperator? operator args = some expr) :
    expr = .node operator expr.sort args ∧
      (if yieldsBool operator then some .bool else (args.map sort).getLast?) =
        some expr.sort := by
  unfold ofOperator? at h
  split at h
  · rename_i hyields
    cases h
    exact ⟨rfl, if_pos hyields⟩
  · rename_i hyields
    obtain ⟨last, hlast, rfl⟩ := Option.map_eq_some_iff.1 h
    exact ⟨rfl, by rw [if_neg hyields, List.getLast?_map, hlast]; rfl⟩

/-- An atom is assigned the sort that its name has. -/
theorem namedSort?_of_ofAtom {fractional : Bool} {scope : Scope BaseSort} {text : String}
    {span : Span} {expr : Expr} (h : ofAtom fractional scope text span = .ok expr) :
    expr.sort? BaseSort.admitted? scope.lookup = some expr.sort := by
  unfold ofAtom at h
  split at h
  · split at h
    · cases h
    · rename_i numeral hnumeral
      cases h
      have hstarts := Numeral.startsNumeral_of_canonical? hnumeral
      have hnames : ¬ (numeral = "true" ∨ numeral = "false") := by
        rintro (rfl | rfl) <;> exact absurd hstarts (by decide)
      rw [leaf, sort?, namedSort?, if_neg hnames, if_pos hstarts]
      rfl
  · rename_i hnumeral
    split at h
    · rename_i hnames
      cases h
      rw [leaf, sort?, namedSort?, if_pos hnames]
      rfl
    · rename_i hnames
      split at h
      · cases h
      · rename_i found hfound
        cases h
        rw [leaf, sort?, namedSort?, if_neg hnames, if_neg hnumeral, hfound]
        rfl

/-- Inside a `let` names have the sorts that are bound, the last of them first. -/
theorem lookup_extend_eq (scope : Scope BaseSort) (bound : List (String × BaseSort)) :
    (scope.extend bound).lookup = bindSorts scope.lookup bound.reverse := by
  funext name
  rw [Scope.lookup_extend, Table.get?_ofList, bindSorts]

/-- The sort of a `let` is that of its body behind the bindings. -/
theorem sort?_letIn (rule : String → List BaseSort → Option BaseSort)
    (env : String → Option BaseSort) (bound : List Expr) (inner : Expr) :
    (letIn bound inner).sort? rule env = letSort? rule env [] (bound ++ [inner]) := by
  obtain ⟨arg, args, hargs⟩ := List.exists_cons_of_ne_nil
    (List.append_ne_nil_of_right_ne_nil bound (List.cons_ne_nil inner []))
  rw [letIn, hargs, sort?, if_pos rfl]

/-- A name that is bound before others has the sort of its value in them. -/
theorem letSort?_bound (rule : String → List BaseSort → Option BaseSort)
    (env : String → Option BaseSort) (before : List (String × BaseSort)) (name : String)
    (value : Expr) (more : List Expr) (inner : Expr) :
    letSort? rule env before (bound name value :: more ++ [inner]) =
      (value.sort? rule env).bind fun sort =>
        letSort? rule env ((name, sort) :: before) (more ++ [inner]) := by
  obtain ⟨next, rest, hrest⟩ := List.exists_cons_of_ne_nil
    (List.append_ne_nil_of_right_ne_nil more (List.cons_ne_nil inner []))
  rw [List.cons_append, bound, hrest, letSort?]
  rfl

variable {fractional : Bool}

mutual

/-- **A form is assigned the sort that the lowering finds**, if it finds one. -/
theorem sort_of_elaborates : ∀ {scope : Scope BaseSort} {form : Form} {expr : Expr}
    {sort : BaseSort}, Elaborates fractional scope form expr →
    form.applies "distinct" = false → form.NoLoneAtom →
    expr.sort? BaseSort.admitted? scope.lookup = some sort → expr.sort = sort
  | _, _, _, _, .atom h, _, _, hsort =>
    Option.some.inj ((namedSort?_of_ofAtom h).symm.trans hsort)
  | _, _, _, _, .operator hlet .nil _, _, hlone, _ => hlone.elim
  | scope, .list (.atom head _ _ :: _) _ _, expr, sort, .operator hlet (.cons hform hforms) hfound,
      happlies, hlone, hsort => by
    rw [Form.applies, if_neg hlet, Bool.or_eq_false_iff, beq_eq_false_iff_ne] at happlies
    obtain ⟨hexpr, hassigned⟩ := assigned_of_ofOperator? hfound
    rw [hexpr, sort?, if_neg hlet] at hsort
    obtain ⟨sorts, hsorts, hadmitted⟩ := Option.bind_eq_some_iff.1 hsort
    have hargs := sorts_of_elaboratesAll (.cons hform hforms) happlies.2 hlone.items.2 hsorts
    have hne : sorts ≠ [] := by
      rintro rfl
      cases hargs
    rw [hargs, BaseSort.assigned_of_admitted? hadmitted happlies.1 hne] at hassigned
    exact (Option.some.inj hassigned).symm
  | _, _, _, _, .letIn hbound hinner, happlies, hlone, hsort => by
    rw [Form.applies, if_pos rfl, Form.appliesBehindLet, Bool.or_eq_false_iff] at happlies
    rw [sort?_letIn] at hsort
    have hbody := letSort?_of_elaborates hbound happlies.1 hlone.items.2.1.items hsort
    rw [List.append_nil, ← lookup_extend_eq] at hbody
    rw [letIn, Expr.sort]
    exact sort_of_elaborates hinner happlies.2 hlone.items.2.2.1 hbody

/-- So are several forms. -/
theorem sorts_of_elaboratesAll : ∀ {scope : Scope BaseSort} {forms : List Form}
    {exprs : List Expr} {sorts : List BaseSort}, ElaboratesAll fractional scope forms exprs →
    Form.appliesAny "distinct" forms = false → Form.NoLoneAtoms forms →
    sorts? BaseSort.admitted? scope.lookup exprs = some sorts → exprs.map Expr.sort = sorts
  | _, _, _, _, .nil, _, _, hsorts => Option.some.inj hsorts
  | _, _, _, sorts, .cons hform hforms, happlies, hlone, hsorts => by
    rw [Form.appliesAny, Bool.or_eq_false_iff] at happlies
    rw [sorts?] at hsorts
    obtain ⟨sort, hsort, hsorts⟩ := Option.bind_eq_some_iff.1 hsorts
    obtain ⟨more, hmore, hsorts⟩ := Option.bind_eq_some_iff.1 hsorts
    cases hsorts
    rw [List.map_cons, sort_of_elaborates hform happlies.1 hlone.1 hsort,
      sorts_of_elaboratesAll hforms happlies.2 hlone.2 hmore]

/-- The names of bindings are assigned the sorts that the lowering finds for their
values. So the body of the `let` has its sort with these. -/
theorem letSort?_of_elaborates : ∀ {scope : Scope BaseSort} {bindings : List Form}
    {bound : List Expr} {before : List (String × BaseSort)} {inner : Expr} {sort : BaseSort},
    ElaboratesBindings fractional scope bindings bound →
    Form.appliesInValues "distinct" bindings = false → Form.NoLoneAtoms bindings →
    letSort? BaseSort.admitted? scope.lookup before (bound ++ [inner]) = some sort →
    inner.sort? BaseSort.admitted? (bindSorts scope.lookup ((boundSorts bound).reverse ++ before)) =
      some sort
  | _, _, _, _, _, _, .nil, _, _, hsort => hsort
  | _, _, _, _, _, _, .cons hvalue hmore, happlies, hlone, hsort => by
    rw [Form.appliesInValues, Bool.or_eq_false_iff] at happlies
    rw [letSort?_bound] at hsort
    obtain ⟨valueSort, hvalueSort, hsort⟩ := Option.bind_eq_some_iff.1 hsort
    rw [← sort_of_elaborates hvalue happlies.1 hlone.1.items.2.1 hvalueSort] at hsort
    have hbody := letSort?_of_elaborates hmore happlies.2 hlone.2 hsort
    rw [boundSorts, List.map_cons, List.reverse_cons, List.append_assoc, List.singleton_append]
    exact hbody

end

end Expr

namespace Term

/-- What is lowered has the sort that the lowering finds. -/
theorem sort?_of_ofExpr {table : Table SortedTerm} {env : String → Option BaseSort}
    (h : AgreesOn table env) {expr : Expr} {t : SortedTerm} (ht : ofExpr table expr = .ok t) :
    expr.sort? BaseSort.admitted? env = some t.sort := by
  have hlowers := lowers_ofExpr h expr
  cases hsort : expr.sort? BaseSort.admitted? env with
  | none =>
    rw [hsort] at hlowers
    obtain ⟨fault, hfault⟩ := hlowers
    rw [hfault] at ht
    cases ht
  | some sort =>
    rw [hsort] at hlowers
    obtain ⟨term, hterm⟩ := hlowers
    rw [hterm] at ht
    cases ht
    rfl

/-- **The sort that the elaboration assigns is the sort of the term.** Let the
declared terms and the scope agree on names and sorts. If a form in which
`distinct` is not applied and no list is an atom alone is elaborated, and the
expression has a term, then the term is of the sort that the expression was
assigned. -/
theorem sort_eq_of_elaborated (fractional : Bool) (scope : Scope BaseSort)
    (table : Table SortedTerm) (form : Form) (expr : Expr) (t : SortedTerm)
    (hagree : ∀ name, (table.get? name).map SortedTerm.sort = scope.lookup name)
    (hdistinct : form.applies "distinct" = false) (hlone : form.NoLoneAtom)
    (helaborated : (Expr.ofForm fractional scope form).result = .ok expr)
    (hlowered : ofExpr table expr = .ok t) : t.sort = expr.sort :=
  (Expr.sort_of_elaborates (Expr.elaborates_of_ofForm form helaborated) hdistinct hlone
    (sort?_of_ofExpr hagree hlowered)).symm

/-- In `(let ((x p) (p x)) (ite x (+ p 1) p))` a real and a truth value change their
names: the condition was the truth value, and what is yielded is a real. -/
theorem sort_eq_of_elaborated_swap :
    let table := ((Table.empty : Table SortedTerm).set "x" (ofDeclaration "x" .real)).set "p"
      (ofDeclaration "p" .bool)
    let scope := (Scope.empty.define "x" BaseSort.real).define "p" .bool
    let atom (text : String) : Form := .ofText text
    let form : Form := .ofItems [atom "let",
      .ofItems [.ofItems [atom "x", atom "p"], .ofItems [atom "p", atom "x"]],
      .ofItems [atom "ite", atom "x", .ofItems [atom "+", atom "p", atom "1"], atom "p"]]
    (∀ name, (table.get? name).map SortedTerm.sort = scope.lookup name) ∧
      form.applies "distinct" = false ∧ form.NoLoneAtom ∧
      ∃ expr t, (Expr.ofForm false scope form).result = .ok expr ∧ ofExpr table expr = .ok t ∧
        t.sort = expr.sort ∧ expr.sort = .real := by
  intro table scope atom form
  have hagree (name : String) : (table.get? name).map SortedTerm.sort = scope.lookup name := by
    simp only [table, scope, Table.get?_set, Table.get?_empty, Scope.lookup_define,
      Scope.lookup_empty]
    split
    · rfl
    · split <;> rfl
  have hlone : form.NoLoneAtom := by
    simp [form, atom, Form.ofText, Form.ofItems, Form.NoLoneAtom, Form.NoLoneAtoms]
  refine ⟨hagree, rfl, hlone, _, _, rfl, rfl, ?_, rfl⟩
  exact sort_eq_of_elaborated false scope table form _ _ hagree rfl hlone rfl rfl

end Term

end SatScript
