import SatScript.Expr.Basic
import SatScript.Fault
import SatScript.Numeral
import SatScript.Table
import SatScript.Term.Basic
/-!
# SatScript — from expressions to terms

Names are looked up among the terms at hand, which a `let` extends for
its body; so a `let` leaves no trace in the term but that values stand
for names. A relation between several arguments holds between every two
neighbours; implications associate to the right, operations to the left.
Sorts are checked here: an operator that meets an argument of the wrong
sort has no term.
-/

namespace SatScript

namespace SortedTerm

/-- The term, if it is a truth value; the operator is named in the fault. -/
def asBool (operator : String) (t : SortedTerm) : Except BackendFault Term :=
  if t.sort = .bool then .ok t.term else .error (.wrongSort operator .bool t.sort)

/-- The term, if it is a real; the operator is named in the fault. -/
def asReal (operator : String) (t : SortedTerm) : Except BackendFault Term :=
  if t.sort = .real then .ok t.term else .error (.wrongSort operator .real t.sort)

/-- All terms, if they are truth values. -/
def allBool (operator : String) : List SortedTerm → Except BackendFault (List Term)
  | [] => .ok []
  | t :: ts => do return (← t.asBool operator) :: (← allBool operator ts)

/-- All terms, if they are reals. -/
def allReal (operator : String) : List SortedTerm → Except BackendFault (List Term)
  | [] => .ok []
  | t :: ts => do return (← t.asReal operator) :: (← allReal operator ts)

end SortedTerm

namespace Term

/-- The equation of two terms of one sort. -/
def equate (a b : SortedTerm) : Except BackendFault Term :=
  if a.sort = b.sort then .ok (.relate .eq a.term b.term)
  else .error (.mixedEquality a.sort b.sort)

/-- A comparison of two reals. -/
def compare (operator : String) (relation : Relation) (a b : SortedTerm) :
    Except BackendFault Term := do
  return .relate relation (← a.asReal operator) (← b.asReal operator)

/-- A relation between every two neighbours. -/
def neighbours (relate : SortedTerm → SortedTerm → Except BackendFault Term) :
    List SortedTerm → Except BackendFault (List Term)
  | a :: b :: rest => do return (← relate a b) :: (← neighbours relate (b :: rest))
  | _ => .ok []

/-- Terms that hold together: a single one stands for itself. -/
def together : List Term → Term
  | [part] => part
  | parts => .conj parts

/-- A relation between every two neighbours, as one term. -/
def pairwise (relate : SortedTerm → SortedTerm → Except BackendFault Term)
    (args : List SortedTerm) : Except BackendFault SortedTerm := do
  return ⟨.bool, together (← neighbours relate args)⟩

/-- Implications to the right: `a => (b => c)`. -/
def implications : List Term → Option Term
  | [] => none
  | [last] => some last
  | first :: rest => (implications rest).map (.implies first)

/-- An operation on reals, to the left: `(a + b) + c`. -/
def leftwards (operator : String) (operation : Operation) (args : List SortedTerm) :
    Except BackendFault SortedTerm := do
  match ← SortedTerm.allReal operator args with
  | [] => .error (.someArguments operator)
  | first :: rest => return ⟨.real, rest.foldl (.operate operation) first⟩

/-- A choice between two terms of one sort. -/
def choice : List SortedTerm → Except BackendFault SortedTerm
  | [c, t, e] => do
    let condition ← c.asBool "ite"
    if t.sort = e.sort then return ⟨t.sort, .ite condition t.term e.term⟩
    else .error .mixedBranches
  | _ => .error .threeArguments

/-- The term of an operator applied to terms. -/
def apply (operator : String) (args : List SortedTerm) : Except BackendFault SortedTerm :=
  match operator with
  | "and" => do return ⟨.bool, .conj (← SortedTerm.allBool operator args)⟩
  | "or" => do return ⟨.bool, .disj (← SortedTerm.allBool operator args)⟩
  | "not" =>
    match args with
    | [arg] => do return ⟨.bool, .not (← arg.asBool operator)⟩
    | _ => .error (.oneArgument operator args.length)
  | "=>" => do
    match implications (← SortedTerm.allBool operator args) with
    | none => .error (.someArguments operator)
    | some term => return ⟨.bool, term⟩
  | "=" => pairwise equate args
  | "distinct" => .ok ⟨.bool, .distinct (args.map (·.term))⟩
  | "<" => pairwise (compare operator .lt) args
  | ">" => pairwise (compare operator .gt) args
  | "<=" => pairwise (compare operator .le) args
  | ">=" => pairwise (compare operator .ge) args
  | "+" => leftwards operator .add args
  | "*" => leftwards operator .mul args
  | "/" => leftwards operator .div args
  | "-" =>
    match args with
    | [arg] => do return ⟨.real, .neg (← arg.asReal operator)⟩
    | _ => leftwards operator .sub args
  | "ite" => choice args
  | _ => .error (.unsupported operator)

/-- The term of a name: a truth value, a numeral, or what the name stands
for. -/
def ofName (scope : Table SortedTerm) (name : String) : Except BackendFault SortedTerm :=
  if name = "true" then .ok ⟨.bool, .truth true⟩
  else if name = "false" then .ok ⟨.bool, .truth false⟩
  else if Numeral.startsNumeral name then .ok ⟨.real, .numeral name⟩
  else
    match scope.get? name with
    | none => .error (.noTerm name)
    | some term => .ok term

mutual

/-- The term of an expression. -/
def ofExpr (scope : Table SortedTerm) : Expr → Except BackendFault SortedTerm
  | .node name _ [] => ofName scope name
  | .node name _ (arg :: args) =>
    if name = "let" then ofLet scope scope (arg :: args)
    else do apply name (← ofExprs scope (arg :: args))

/-- The terms of several expressions, from left to right. -/
def ofExprs (scope : Table SortedTerm) :
    List Expr → Except BackendFault (List SortedTerm)
  | [] => .ok []
  | expr :: exprs => do return (← ofExpr scope expr) :: (← ofExprs scope exprs)

/-- The term of a `let`: values are lowered in the scope around it, the
body in the scope that the bindings before it have extended. -/
def ofLet (scope inner : Table SortedTerm) :
    List Expr → Except BackendFault SortedTerm
  | [] => .error .noBody
  | [body] => ofExpr inner body
  | .node name _ [] :: _ :: _ => .error (.noValue name)
  | .node name _ (value :: _) :: next :: rest => do
    ofLet scope (inner.set name (← ofExpr scope value)) (next :: rest)

end

/-- The term that an assertion adds: it has to be a truth value. -/
def ofAssertion (scope : Table SortedTerm) (expr : Expr) : Except BackendFault Term := do
  (← ofExpr scope expr).asBool "assert"

end Term

end SatScript
