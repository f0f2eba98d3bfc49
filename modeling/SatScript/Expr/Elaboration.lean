import SatScript.Expr.Basic
import SatScript.Form.Basic
import SatScript.Numeral
import SatScript.Scope
import SatScript.Trace
/-!
# SatScript — from forms to expressions

A form is given sorts against a scope of sorts. Atoms are numerals, truth
values or names of the scope; a list is an operator with arguments, and
its sort is that of the last argument unless the operator yields truth
values. In `(let ((x a) (y b)) t)` the values see the scope around the
`let` and only `t` sees the names. A binding is traced once its value is
elaborated. The first fault from left to right ends the elaboration.
-/

namespace SatScript

namespace Expr

/-- Elaborate an atom. -/
def ofAtom (fractional : Bool) (scope : Scope BaseSort) (text : String) (span : Span) :
    Except Fault Expr :=
  if Numeral.startsNumeral text then
    match Numeral.canonical? fractional text with
    | none => .error (.found (.badNumeral text) span)
    | some numeral => .ok (leaf numeral .real)
  else if text = "true" ∨ text = "false" then .ok (leaf text .bool)
  else
    match scope.lookup text with
    | none => .error (.found (.undefinedName text) span)
    | some sort => .ok (leaf text sort)

/-- The expression of an operator applied to arguments; none if neither the
operator nor an argument gives it a sort. -/
def ofOperator? (operator : String) (args : List Expr) : Option Expr :=
  if yieldsBool operator then some (.node operator .bool args)
  else args.getLast?.map fun last => .node operator last.sort args

/-- A bound name with its value. -/
def bound (name : String) (value : Expr) : Expr := .node name value.sort [value]

/-- The names that bindings give a sort. -/
def boundSorts (bindings : List Expr) : List (String × BaseSort) :=
  bindings.map fun binding => (binding.name, binding.sort)

/-- The expression of a `let`. -/
def letIn (bindings : List Expr) (body : Expr) : Expr :=
  .node "let" body.sort (bindings ++ [body])

mutual

/-- Elaborate a form. -/
def ofForm (fractional : Bool) (scope : Scope BaseSort) : Form → Traced Expr
  | .atom text start stop => ⟨[], ofAtom fractional scope text ⟨start, stop⟩⟩
  | .list [] start stop => .fail (.found (.shape .emptyExpression) ⟨start, stop⟩)
  | .list (.list items start' stop' :: rest) start stop =>
    let written := (Form.list (.list items start' stop' :: rest) start stop).render
    .fail (.found (.shape (.listAsOperator written)) ⟨start', stop'⟩)
  | .list (.atom head _ _ :: rest) start stop =>
    if head = "let" then ofLet fractional scope (rest.length + 1) ⟨start, stop⟩ rest
    else do
      let args ← ofForms fractional scope rest
      match ofOperator? head args with
      | some expr => .ok expr
      | none => .fail (.found (.wrongCount head (.atLeast 2) (rest.length + 1)) ⟨start, stop⟩)

/-- Elaborate what stands behind `let`. -/
def ofLet (fractional : Bool) (scope : Scope BaseSort) (count : Nat) (span : Span) :
    List Form → Traced Expr
  | [.list bindings _ _, body] => do
    let bound ← ofBindings fractional scope bindings
    let inner ← ofForm fractional (scope.extend (boundSorts bound)) body
    .ok (letIn bound inner)
  | [.atom text start stop, _] =>
    .fail (.found (.shape (.atomForBindings text)) ⟨start, stop⟩)
  | _ => .fail (.found (.wrongCount "let" (.exactly 3) count) span)

/-- Elaborate forms from left to right. -/
def ofForms (fractional : Bool) (scope : Scope BaseSort) : List Form → Traced (List Expr)
  | [] => .ok []
  | form :: forms => do
    let expr ← ofForm fractional scope form
    let exprs ← ofForms fractional scope forms
    .ok (expr :: exprs)

/-- Elaborate the bindings of a `let` from left to right. -/
def ofBindings (fractional : Bool) (scope : Scope BaseSort) :
    List Form → Traced (List Expr)
  | [] => .ok []
  | .list [.atom name _ _, value] _ _ :: bindings => do
    let value ← ofForm fractional scope value
    Traced.emit (.binding name value.render)
    let rest ← ofBindings fractional scope bindings
    .ok (bound name value :: rest)
  | binding :: _ =>
    .fail (.found (.shape (.notABinding binding.render)) binding.span)

end

end Expr

end SatScript
