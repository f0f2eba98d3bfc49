import SatScript.Expr.Elaboration
import SatScript.Proofs.Computation
/-!
# SatScript — what a form is elaborated to

`Elaborates` lists the ways in which a form comes to an expression: an atom, an
operator with arguments, a `let` with bindings and a body. `elaborates_of_ofForm`
says that there are no others, so a property of elaborated expressions is proved
by induction on them and never by unfolding `ofForm`.
-/

namespace SatScript

namespace Expr

/-- The expression of an operator has the operator's arguments, whatever its sort is. -/
theorem exists_node_of_ofOperator? {operator : String} {args : List Expr} {expr : Expr}
    (h : ofOperator? operator args = some expr) : ∃ sort, expr = .node operator sort args := by
  unfold ofOperator? at h
  split at h
  · cases h
    exact ⟨_, rfl⟩
  · obtain ⟨last, -, rfl⟩ := Option.map_eq_some_iff.1 h
    exact ⟨_, rfl⟩

variable {fractional : Bool} {scope : Scope BaseSort}

mutual

/-- A form comes to an expression in a scope. -/
inductive Elaborates (fractional : Bool) : Scope BaseSort → Form → Expr → Prop
  | atom {scope : Scope BaseSort} {text : String} {start stop : Nat} {expr : Expr} :
      ofAtom fractional scope text ⟨start, stop⟩ = .ok expr →
      Elaborates fractional scope (.atom text start stop) expr
  /-- The operator is applied to what comes of the forms behind it. -/
  | operator {scope : Scope BaseSort} {head : String} {p q start stop : Nat} {rest : List Form}
      {args : List Expr} {expr : Expr} : head ≠ "let" →
      ElaboratesAll fractional scope rest args → ofOperator? head args = some expr →
      Elaborates fractional scope (.list (.atom head p q :: rest) start stop) expr
  /-- The values see the scope around the `let`, the body the names besides. -/
  | letIn {scope : Scope BaseSort} {p q p' q' start stop : Nat} {bindings : List Form}
      {body : Form} {bound : List Expr} {inner : Expr} :
      ElaboratesBindings fractional scope bindings bound →
      Elaborates fractional (scope.extend (boundSorts bound)) body inner →
      Elaborates fractional scope
        (.list [.atom "let" p q, .list bindings p' q', body] start stop) (letIn bound inner)

/-- Forms come to expressions, one by one. -/
inductive ElaboratesAll (fractional : Bool) : Scope BaseSort → List Form → List Expr → Prop
  | nil {scope : Scope BaseSort} : ElaboratesAll fractional scope [] []
  | cons {scope : Scope BaseSort} {form : Form} {forms : List Form} {expr : Expr}
      {exprs : List Expr} : Elaborates fractional scope form expr →
      ElaboratesAll fractional scope forms exprs →
      ElaboratesAll fractional scope (form :: forms) (expr :: exprs)

/-- Bindings come to bound names with their values, one by one. -/
inductive ElaboratesBindings (fractional : Bool) :
    Scope BaseSort → List Form → List Expr → Prop
  | nil {scope : Scope BaseSort} : ElaboratesBindings fractional scope [] []
  | cons {scope : Scope BaseSort} {name : String} {p q start stop : Nat} {value : Form}
      {bindings : List Form} {expr : Expr} {more : List Expr} :
      Elaborates fractional scope value expr →
      ElaboratesBindings fractional scope bindings more →
      ElaboratesBindings fractional scope (.list [.atom name p q, value] start stop :: bindings)
        (Expr.bound name expr :: more)

end

mutual

/-- **There is no other way** for a form to come to an expression. -/
theorem elaborates_of_ofForm : ∀ (form : Form) {scope : Scope BaseSort} {expr : Expr},
    (ofForm fractional scope form).result = .ok expr → Elaborates fractional scope form expr
  | .atom _ _ _, _, _, h => .atom h
  | .list [] _ _, _, _, h => nomatch h
  | .list (.list _ _ _ :: _) _ _, _, _, h => nomatch h
  | .list (.atom head p q :: rest) start stop, scope, expr, h => by
    rw [ofForm] at h
    split at h
    · rename_i hlet
      obtain ⟨bindings, p', q', body, bound, inner, rfl, rfl, hbound, hinner⟩ :=
        elaborates_of_ofLet rest h
      rw [hlet]
      exact .letIn hbound hinner
    · rename_i hlet
      rw [Traced.result_bind] at h
      obtain ⟨args, hargs, h⟩ := bind_eq_ok_iff.1 h
      split at h
      · rename_i found hfound
        cases h
        exact .operator hlet (elaborates_of_ofForms rest hargs) hfound
      · cases h

/-- Nor for forms one after another. -/
theorem elaborates_of_ofForms : ∀ (forms : List Form) {scope : Scope BaseSort}
    {exprs : List Expr}, (ofForms fractional scope forms).result = .ok exprs →
    ElaboratesAll fractional scope forms exprs
  | [], _, _, h => by
    cases h
    exact .nil
  | form :: forms, scope, exprs, h => by
    rw [ofForms, Traced.result_bind] at h
    obtain ⟨expr, hexpr, h⟩ := bind_eq_ok_iff.1 h
    rw [Traced.result_bind] at h
    obtain ⟨more, hmore, h⟩ := bind_eq_ok_iff.1 h
    cases h
    exact .cons (elaborates_of_ofForm form hexpr) (elaborates_of_ofForms forms hmore)

/-- Nor for bindings. -/
theorem elaborates_of_ofBindings : ∀ (bindings : List Form) {scope : Scope BaseSort}
    {bound : List Expr}, (ofBindings fractional scope bindings).result = .ok bound →
    ElaboratesBindings fractional scope bindings bound
  | [], _, _, h => by
    cases h
    exact .nil
  | .list [.atom name _ _, value] _ _ :: bindings, scope, bound, h => by
    rw [ofBindings, Traced.result_bind] at h
    obtain ⟨expr, hexpr, h⟩ := bind_eq_ok_iff.1 h
    rw [Traced.result_bind] at h
    obtain ⟨-, -, h⟩ := bind_eq_ok_iff.1 h
    rw [Traced.result_bind] at h
    obtain ⟨more, hmore, h⟩ := bind_eq_ok_iff.1 h
    cases h
    exact .cons (elaborates_of_ofForm value hexpr) (elaborates_of_ofBindings bindings hmore)
  | .atom _ _ _ :: _, _, _, h => nomatch h
  | .list [] _ _ :: _, _, _, h => nomatch h
  | .list [.atom _ _ _] _ _ :: _, _, _, h => nomatch h
  | .list [.list _ _ _] _ _ :: _, _, _, h => nomatch h
  | .list (.list _ _ _ :: _ :: _) _ _ :: _, _, _, h => nomatch h
  | .list (.atom _ _ _ :: _ :: _ :: _) _ _ :: _, _, _, h => nomatch h

/-- What stands behind `let` is a list of bindings and a body. -/
theorem elaborates_of_ofLet : ∀ (rest : List Form) {scope : Scope BaseSort} {count : Nat}
    {span : Span} {expr : Expr}, (ofLet fractional scope count span rest).result = .ok expr →
    ∃ bindings p q body bound inner, rest = [.list bindings p q, body] ∧
      expr = letIn bound inner ∧ ElaboratesBindings fractional scope bindings bound ∧
      Elaborates fractional (scope.extend (boundSorts bound)) body inner
  | [.list bindings p q, body], scope, _, _, expr, h => by
    rw [ofLet, Traced.result_bind] at h
    obtain ⟨bound, hbound, h⟩ := bind_eq_ok_iff.1 h
    rw [Traced.result_bind] at h
    obtain ⟨inner, hinner, h⟩ := bind_eq_ok_iff.1 h
    cases h
    exact ⟨bindings, p, q, body, bound, inner, rfl, rfl,
      elaborates_of_ofBindings bindings hbound, elaborates_of_ofForm body hinner⟩
  | [], _, _, _, _, h => nomatch h
  | [.atom _ _ _], _, _, _, _, h => nomatch h
  | [.list _ _ _], _, _, _, _, h => nomatch h
  | [.atom _ _ _, _], _, _, _, _, h => nomatch h
  | .atom _ _ _ :: _ :: _ :: _, _, _, _, _, h => nomatch h
  | .list _ _ _ :: _ :: _ :: _, _, _, _, _, h => nomatch h

end

end Expr

end SatScript
