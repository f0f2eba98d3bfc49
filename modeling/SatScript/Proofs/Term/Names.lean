import SatScript.Proofs.Term.Elaboration
import SatScript.Term.Backend
/-!
# SatScript — elaborated names have terms

The elaboration finds the sorts of names in a scope of frames, the
lowering their terms in one table, and a `let` extends either in its own
way. They agree: what is elaborated in a scope can be lowered with every
table that knows the names of the scope, without a name or a binding that
is missing (`bound_ofForm`). Only a list that is an atom alone is taken
for an operator by the one and for a name by the other.
-/

namespace SatScript

/-! ## What a fault is about -/

/-- What the fault of an expression without a term is about. -/
inductive Concern where
  | binding
  | operator
  | count
  | sorts
deriving DecidableEq

/-- A fault is about a name or a binding that is missing, an operator that is
unknown, the number of arguments or their sorts. -/
def BackendFault.concern : BackendFault → Concern
  | .noTerm _ => .binding
  | .noBody => .binding
  | .noValue _ => .binding
  | .unsupported _ => .operator
  | .oneArgument _ _ => .count
  | .someArguments _ => .count
  | .threeArguments => .count
  | .wrongSort _ _ _ => .sorts
  | .mixedEquality _ _ => .sorts
  | .mixedBranches => .sorts

/-- A lowering misses no name and no binding. -/
def Bound {α : Type} (lowering : Except BackendFault α) : Prop :=
  ∀ fault, lowering = .error fault → fault.concern ≠ .binding

namespace Bound

variable {α β : Type}

theorem ok (value : α) : Bound (.ok value) := fun _ h => nomatch h

theorem error {fault : BackendFault} (h : fault.concern ≠ .binding) :
    Bound (.error fault : Except BackendFault α) := by
  intro other hother
  cases hother
  exact h

/-- A lowering in two steps misses nothing if neither step does. -/
theorem bind {first : Except BackendFault α} {next : α → Except BackendFault β}
    (hfirst : Bound first) (hnext : ∀ value, first = .ok value → Bound (next value)) :
    Bound (first >>= next) := by
  cases first with
  | error fault => exact .error (hfirst fault rfl)
  | ok value => exact hnext value rfl

end Bound

/-! ## Operators -/

namespace SortedTerm

theorem bound_asBool (operator : String) (t : SortedTerm) : Bound (t.asBool operator) := by
  unfold asBool
  split
  · exact .ok _
  · exact .error nofun

theorem bound_asReal (operator : String) (t : SortedTerm) : Bound (t.asReal operator) := by
  unfold asReal
  split
  · exact .ok _
  · exact .error nofun

theorem bound_allBool (operator : String) (ts : List SortedTerm) :
    Bound (allBool operator ts) := by
  induction ts with
  | nil => exact .ok _
  | cons t ts ih => exact (bound_asBool operator t).bind fun _ _ => ih.bind fun _ _ => .ok _

theorem bound_allReal (operator : String) (ts : List SortedTerm) :
    Bound (allReal operator ts) := by
  induction ts with
  | nil => exact .ok _
  | cons t ts ih => exact (bound_asReal operator t).bind fun _ _ => ih.bind fun _ _ => .ok _

end SortedTerm

namespace Term

theorem bound_equate (a b : SortedTerm) : Bound (equate a b) := by
  unfold equate
  split
  · exact .ok _
  · exact .error nofun

theorem bound_compare (operator : String) (relation : Relation) (a b : SortedTerm) :
    Bound (compare operator relation a b) :=
  (SortedTerm.bound_asReal operator a).bind fun _ _ =>
    (SortedTerm.bound_asReal operator b).bind fun _ _ => .ok _

theorem bound_pairwise {relate : SortedTerm → SortedTerm → Except BackendFault Term}
    (hrelate : ∀ a b, Bound (relate a b)) (ts : List SortedTerm) : Bound (pairwise relate ts) := by
  have hneighbours : Bound (neighbours relate ts) := by
    fun_induction neighbours relate ts with
    | case1 a b rest ih => exact (hrelate a b).bind fun _ _ => ih.bind fun _ _ => .ok _
    | case2 => exact .ok _
  exact hneighbours.bind fun _ _ => .ok _

theorem bound_leftwards (operator : String) (operation : Operation) (ts : List SortedTerm) :
    Bound (leftwards operator operation ts) := by
  refine (SortedTerm.bound_allReal operator ts).bind fun terms _ => ?_
  cases terms with
  | nil => exact .error nofun
  | cons first rest => exact .ok _

theorem bound_choice (ts : List SortedTerm) : Bound (choice ts) := by
  unfold choice
  split
  · refine (SortedTerm.bound_asBool _ _).bind fun _ _ => ?_
    split
    · exact .ok _
    · exact .error nofun
  · exact .error nofun

/-- **An operator misses no name**: what it is applied to are terms already. -/
theorem bound_apply (operator : String) (ts : List SortedTerm) : Bound (apply operator ts) := by
  unfold apply
  split
  case h_1 => exact (SortedTerm.bound_allBool _ _).bind fun _ _ => .ok _
  case h_2 => exact (SortedTerm.bound_allBool _ _).bind fun _ _ => .ok _
  case h_3 =>
    split
    · exact (SortedTerm.bound_asBool _ _).bind fun _ _ => .ok _
    · exact .error nofun
  case h_4 =>
    refine (SortedTerm.bound_allBool _ _).bind fun terms _ => ?_
    split
    · exact .error nofun
    · exact .ok _
  case h_5 => exact bound_pairwise bound_equate _
  case h_6 => exact .ok _
  case h_7 => exact bound_pairwise (bound_compare _ _) _
  case h_8 => exact bound_pairwise (bound_compare _ _) _
  case h_9 => exact bound_pairwise (bound_compare _ _) _
  case h_10 => exact bound_pairwise (bound_compare _ _) _
  case h_11 => exact bound_leftwards _ _ _
  case h_12 => exact bound_leftwards _ _ _
  case h_13 => exact bound_leftwards _ _ _
  case h_14 =>
    split
    · exact (SortedTerm.bound_asReal _ _).bind fun _ _ => .ok _
    · exact bound_leftwards _ _ _
  case h_15 => exact bound_choice _
  case h_16 => exact .error nofun

/-! ## Names -/

/-- The table has a term for every name of the scope. -/
def Knows (table : Table SortedTerm) (scope : Scope BaseSort) : Prop :=
  ∀ name sort, scope.lookup name = some sort → ∃ term, table.get? name = some term

/-- A name that has a term misses none. -/
theorem bound_ofName {table : Table SortedTerm} {name : String} {term : SortedTerm}
    (h : table.get? name = some term) : Bound (ofName table name) := by
  unfold ofName
  split
  · exact .ok _
  split
  · exact .ok _
  split
  · exact .ok _
  · rw [h]
    exact .ok _

/-- **An atom that is elaborated has a term**: it is a numeral, a truth value or
a name of the scope. -/
theorem bound_ofAtom {fractional : Bool} {table : Table SortedTerm} {scope : Scope BaseSort}
    {text : String} {span : Span} {expr : Expr} (hknows : Knows table scope)
    (h : Expr.ofAtom fractional scope text span = .ok expr) : Bound (ofExpr table expr) := by
  unfold Expr.ofAtom at h
  split at h
  · split at h
    · cases h
    · rename_i numeral hnumeral
      cases h
      rw [Expr.leaf, ofExpr, ofName, Numeral.startsNumeral_of_canonical? hnumeral]
      split
      · exact .ok _
      split
      · exact .ok _
      · exact .ok _
  · split at h
    · rename_i htruth
      cases h
      rw [Expr.leaf, ofExpr, ofName]
      rcases htruth with rfl | rfl <;> exact .ok _
    · split at h
      · cases h
      · rename_i sort hsort
        cases h
        obtain ⟨term, hterm⟩ := hknows text sort hsort
        rw [Expr.leaf, ofExpr]
        exact bound_ofName hterm

/-! ## Bindings -/

/-- The bindings of a `let` have values that can be lowered. -/
def BoundAll (table : Table SortedTerm) (bindings : List Expr) : Prop :=
  ∀ binding ∈ bindings, ∃ name value, binding = Expr.bound name value ∧
    Bound (ofExpr table value)

/-- A table that knows a scope and has terms for the names that bindings add
knows the extended scope. -/
theorem Knows.extend {table inner : Table SortedTerm} {scope : Scope BaseSort}
    {bindings : List Expr} (hknows : Knows table scope)
    (hold : ∀ name term, table.get? name = some term → ∃ term', inner.get? name = some term')
    (hnew : ∀ binding ∈ bindings, ∃ term, inner.get? binding.name = some term) :
    Knows inner (scope.extend (Expr.boundSorts bindings)) := by
  intro name sort hsort
  rw [Scope.lookup_extend, Table.get?_ofList] at hsort
  cases hlookup : (Expr.boundSorts bindings).reverse.lookup name with
  | none =>
    rw [hlookup, Option.none_or] at hsort
    obtain ⟨term, hterm⟩ := hknows name sort hsort
    exact hold name term hterm
  | some found =>
    obtain ⟨before, after, heq, -⟩ := List.lookup_eq_some_iff.1 hlookup
    have hmem : (name, found) ∈ Expr.boundSorts bindings := by
      rw [← List.mem_reverse, heq]
      exact List.mem_append_right _ List.mem_cons_self
    obtain ⟨binding, hbinding, hpair⟩ := List.mem_map.1 hmem
    cases hpair
    exact hnew binding hbinding

/-- The term of a `let` is that of its body behind the bindings. -/
theorem ofExpr_letIn (table : Table SortedTerm) (bound : List Expr) (inner : Expr) :
    ofExpr table (Expr.letIn bound inner) = ofLet table table (bound ++ [inner]) := by
  obtain ⟨arg, args, hargs⟩ := List.exists_cons_of_ne_nil
    (List.append_ne_nil_of_right_ne_nil bound (List.cons_ne_nil inner []))
  rw [Expr.letIn, hargs, ofExpr, if_pos rfl]

/-- A name that is bound has the term of its value in what is behind it. -/
theorem ofLet_bound (table inner : Table SortedTerm) (name : String) (value : Expr)
    (more : List Expr) (body : Expr) :
    ofLet table inner (Expr.bound name value :: more ++ [body]) =
      ofExpr table value >>= fun term => ofLet table (inner.set name term) (more ++ [body]) := by
  obtain ⟨next, rest, hrest⟩ := List.exists_cons_of_ne_nil
    (List.append_ne_nil_of_right_ne_nil more (List.cons_ne_nil body []))
  rw [List.cons_append, hrest, Expr.bound, ofLet]

/-- **A `let` misses nothing** if its values do not, nor its body with any table
that has the terms so far and terms for the names that are bound. -/
theorem bound_ofLet {table inner : Table SortedTerm} {bindings : List Expr} {body : Expr}
    (hbindings : BoundAll table bindings)
    (hbody : ∀ inner' : Table SortedTerm,
      (∀ name term, inner.get? name = some term → ∃ term', inner'.get? name = some term') →
      (∀ binding ∈ bindings, ∃ term, inner'.get? binding.name = some term) →
      Bound (ofExpr inner' body)) :
    Bound (ofLet table inner (bindings ++ [body])) := by
  induction bindings generalizing inner with
  | nil =>
    rw [List.nil_append, ofLet]
    exact hbody inner (fun _ term hterm => ⟨term, hterm⟩) fun _ hmem => absurd hmem List.not_mem_nil
  | cons binding bindings ih =>
    obtain ⟨name, value, rfl, hvalue⟩ := hbindings binding List.mem_cons_self
    rw [ofLet_bound]
    refine hvalue.bind fun term _ => ?_
    -- the name that is set here stays set, whatever the bindings behind it are
    refine ih (fun other hmem => hbindings other (List.mem_cons_of_mem _ hmem)) ?_
    intro inner' hold hnew
    have hset (other : String) (hother : other = name ∨ ∃ term', inner.get? other = some term') :
        ∃ term', inner'.get? other = some term' := by
      obtain ⟨term', hterm'⟩ : ∃ term', (inner.set name term).get? other = some term' := by
        rw [Table.get?_set]
        split
        · exact ⟨term, rfl⟩
        · rename_i hne
          exact hother.resolve_left hne
      exact hold other term' hterm'
    refine hbody inner' (fun other term' hterm' => hset other (.inr ⟨term', hterm'⟩)) ?_
    intro other hmem
    rcases List.mem_cons.1 hmem with rfl | hmem
    · exact hset name (.inl rfl)
    · exact hnew other hmem

end Term

/-! ## Forms -/

mutual

/-- No list in the form is an atom alone. -/
def Form.NoLoneAtom : Form → Prop
  | .atom _ _ _ => True
  | .list [.atom _ _ _] _ _ => False
  | .list items _ _ => NoLoneAtoms items

/-- No list in the forms is an atom alone. -/
def Form.NoLoneAtoms : List Form → Prop
  | [] => True
  | form :: forms => form.NoLoneAtom ∧ NoLoneAtoms forms

end

/-- The items of a list hold no atom alone if the list does not. -/
theorem Form.NoLoneAtom.items {items : List Form} {start stop : Nat}
    (h : (Form.list items start stop).NoLoneAtom) : NoLoneAtoms items := by
  match items with
  | [] => trivial
  | [.atom _ _ _] => exact h.elim
  | [.list _ _ _] => exact h
  | .atom _ _ _ :: _ :: _ => exact h
  | .list _ _ _ :: _ :: _ => exact h

namespace Term

/-- What an operator is applied to is lowered before the operator is. -/
theorem bound_ofOperator {table : Table SortedTerm} {operator : String} {args : List Expr}
    {expr : Expr} (hargs : Bound (ofExprs table args)) (hne : args ≠ []) (hlet : operator ≠ "let")
    (h : Expr.ofOperator? operator args = some expr) : Bound (ofExpr table expr) := by
  obtain ⟨sort, rfl⟩ := Expr.exists_node_of_ofOperator? h
  obtain ⟨arg, more, rfl⟩ := List.exists_cons_of_ne_nil hne
  rw [ofExpr, if_neg hlet]
  exact hargs.bind fun ts _ => bound_apply operator ts

variable {fractional : Bool} {table : Table SortedTerm}

mutual

/-- What a form comes to can be lowered with every table that knows the scope. -/
theorem bound_of_elaborates : ∀ {scope : Scope BaseSort} {form : Form} {expr : Expr}
    {table : Table SortedTerm}, Expr.Elaborates fractional scope form expr → Knows table scope →
    form.NoLoneAtom → Bound (ofExpr table expr)
  | _, _, _, _, .atom h, hknows, _ => bound_ofAtom hknows h
  | _, _, _, _, .operator _ .nil _, _, hlone => hlone.elim
  | _, _, _, _, .operator hlet (.cons hform hforms) hfound, hknows, hlone =>
    bound_ofOperator (bound_of_elaboratesAll (.cons hform hforms) hknows hlone.items.2)
      (List.cons_ne_nil _ _) hlet hfound
  | _, _, _, table, .letIn hbound hinner, hknows, hlone => by
    rw [ofExpr_letIn]
    refine bound_ofLet (boundAll_of_elaborates hbound hknows hlone.items.2.1.items)
      fun inner' hold hnew => ?_
    exact bound_of_elaborates hinner (hknows.extend hold hnew) hlone.items.2.2.1

/-- What forms come to one after another can be lowered so. -/
theorem bound_of_elaboratesAll : ∀ {scope : Scope BaseSort} {forms : List Form}
    {exprs : List Expr} {table : Table SortedTerm},
    Expr.ElaboratesAll fractional scope forms exprs → Knows table scope →
    Form.NoLoneAtoms forms → Bound (ofExprs table exprs)
  | _, _, _, _, .nil, _, _ => .ok _
  | _, _, _, _, .cons hform hforms, hknows, hlone =>
    (bound_of_elaborates hform hknows hlone.1).bind fun _ _ =>
      (bound_of_elaboratesAll hforms hknows hlone.2).bind fun _ _ => .ok _

/-- The bindings of a `let` are lowered with the table around it. -/
theorem boundAll_of_elaborates : ∀ {scope : Scope BaseSort} {bindings : List Form}
    {bound : List Expr} {table : Table SortedTerm},
    Expr.ElaboratesBindings fractional scope bindings bound → Knows table scope →
    Form.NoLoneAtoms bindings → BoundAll table bound
  | _, _, _, _, .nil, _, _ => fun _ hmem => nomatch hmem
  | _, _, _, _, .cons hvalue hmore, hknows, hlone => by
    intro binding hmem
    rcases List.mem_cons.1 hmem with rfl | hmem
    · exact ⟨_, _, rfl, bound_of_elaborates hvalue hknows hlone.1.items.2.1⟩
    · exact boundAll_of_elaborates hmore hknows hlone.2 binding hmem

end

/-- **What is elaborated can be lowered**, as far as names and bindings go, with
every table that knows the scope. -/
theorem bound_ofForm (form : Form) {scope : Scope BaseSort} {table : Table SortedTerm}
    {expr : Expr} (hknows : Knows table scope) (hlone : form.NoLoneAtom)
    (h : (Expr.ofForm fractional scope form).result = .ok expr) : Bound (ofExpr table expr) :=
  bound_of_elaborates (Expr.elaborates_of_ofForm form h) hknows hlone

end Term

end SatScript
