import SatScript.BaseSort
/-!
# SatScript — expressions

A sorted expression is a name applied to arguments. Without arguments the
name is a variable, a numeral or a truth value. `let` is an expression
too: its last argument is the body, and every other argument is a bound
name applied to its value.
-/

namespace SatScript

/-- A sorted expression. -/
inductive Expr where
  | node (name : String) (sort : BaseSort) (args : List Expr)
deriving Inhabited

namespace Expr

/-- The operator, variable, numeral or bound name of an expression. -/
def name : Expr → String
  | .node name _ _ => name

/-- The sort of an expression. -/
def sort : Expr → BaseSort
  | .node _ sort _ => sort

/-- The arguments of an expression. -/
def args : Expr → List Expr
  | .node _ _ args => args

/-- An expression without arguments. -/
def leaf (name : String) (sort : BaseSort) : Expr := .node name sort []

/-- Whether the operator yields a truth value whatever its arguments are. -/
def yieldsBool (operator : String) : Bool :=
  ["and", "or", "not", "=", "<", ">", "<=", ">=", "=>"].contains operator

mutual

/-- The text of an expression: the name, and the arguments in parentheses if
there are any. -/
def render : Expr → String
  | .node name _ [] => name
  | .node name _ (arg :: args) => name ++ "(" ++ render arg ++ renderMore args ++ ")"

/-- The text of arguments that follow others, a comma and a space before
each. -/
def renderMore : List Expr → String
  | [] => ""
  | arg :: args => ", " ++ render arg ++ renderMore args

end

@[simp] theorem name_node (name : String) (sort : BaseSort) (args : List Expr) :
    (Expr.node name sort args).name = name := rfl

@[simp] theorem sort_node (name : String) (sort : BaseSort) (args : List Expr) :
    (Expr.node name sort args).sort = sort := rfl

@[simp] theorem args_node (name : String) (sort : BaseSort) (args : List Expr) :
    (Expr.node name sort args).args = args := rfl

end Expr

end SatScript
