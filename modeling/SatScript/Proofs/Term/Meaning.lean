import SatScript.Term.Backend
import SatScript.Text.Split
/-!
# SatScript — what expressions and terms mean

Expressions and terms denote truth values and rationals. Two things are
left open, division by zero and numerals that are neither an integer nor
a fraction, and `Arithmetic` holds a choice for them. `Expr.value?` is
the reference meaning of an expression under values of its variables: a
`let` gives all its names values at once, evaluated around it.
`Term.value?` is the meaning of a term under an interpretation of the
constants. Neither knows of the other; that lowering keeps the meaning
is proved in the module on lowering.
-/

namespace SatScript

/-- What an expression or a term stands for. -/
inductive Value where
  | bool (b : Bool)
  | real (q : Rat)
deriving DecidableEq

namespace Value

/-- The sort of a value. -/
def sort : Value → BaseSort
  | .bool _ => .bool
  | .real _ => .real

/-- The truth value, if it is one. -/
def bool? : Value → Option Bool
  | .bool b => some b
  | .real _ => none

/-- The rational, if it is one. -/
def real? : Value → Option Rat
  | .bool _ => none
  | .real q => some q

/-- The truth values, if all values are. -/
def bools? : List Value → Option (List Bool)
  | [] => some []
  | v :: vs => do return (← v.bool?) :: (← bools? vs)

/-- The rationals, if all values are. -/
def reals? : List Value → Option (List Rat)
  | [] => some []
  | v :: vs => do return (← v.real?) :: (← reals? vs)

end Value

/-- The rational that a text spells as an integer `n` or a fraction `n/d`. -/
def Numeral.spelled? (text : String) : Option Rat :=
  match Text.split '/' text.toList with
  | [n] => if Text.isDigits n then some (Text.value n) else none
  | [n, d] =>
    if Text.isDigits n ∧ Text.isDigits d ∧ Text.value d ≠ 0 then
      some ((Text.value n : Rat) / Text.value d)
    else none
  | _ => none

/-- A total division, and a rational for every text, which is the one that
the text spells if it spells one. -/
structure Arithmetic where
  divide : Rat → Rat → Rat
  numeral : String → Rat
  numeral_of_spelled : ∀ text q, Numeral.spelled? text = some q → numeral text = q

namespace Arithmetic

/-- The choice in which what is left open is zero. -/
def standard : Arithmetic where
  divide := (· / ·)
  numeral text := (Numeral.spelled? text).getD 0
  numeral_of_spelled _ _ h := by simp [h]

/-- An operation on rationals. -/
def apply (arith : Arithmetic) : Operation → Rat → Rat → Rat
  | .add => (· + ·)
  | .sub => (· - ·)
  | .mul => (· * ·)
  | .div => arith.divide

end Arithmetic

/-! ## Expressions -/

namespace Expr

/-- Whether the relation holds between every two neighbours. -/
def linked? (holds? : Value → Value → Option Bool) : List Value → Option Bool
  | a :: b :: rest => do return (← holds? a b) && (← linked? holds? (b :: rest))
  | _ => some true

/-- A comparison, which is one of rationals. -/
def compared? (holds : Rat → Rat → Bool) (a b : Value) : Option Bool := do
  return holds (← a.real?) (← b.real?)

/-- Implications to the right: the last truth value holds if all before it
do. -/
def implied? : List Bool → Option Bool
  | [] => none
  | [last] => some last
  | first :: rest => (implied? rest).map (!first || ·)

/-- An operation to the left. -/
def folded? (operation : Rat → Rat → Rat) : List Rat → Option Rat
  | [] => none
  | first :: rest => some (rest.foldl operation first)

/-- Whether no two values are equal. -/
def allDifferent (vs : List Value) : Bool := decide vs.Nodup

/-- What an operator makes of values. -/
def operator? (arith : Arithmetic) (operator : String) (vs : List Value) : Option Value :=
  match operator with
  | "and" => (Value.bools? vs).map fun bs => .bool (bs.all id)
  | "or" => (Value.bools? vs).map fun bs => .bool (bs.any id)
  | "not" =>
    match vs with
    | [v] => v.bool?.map fun b => .bool !b
    | _ => none
  | "=>" => ((Value.bools? vs).bind implied?).map .bool
  | "=" => (linked? (fun a b => some (a == b)) vs).map .bool
  | "distinct" => some (.bool (allDifferent vs))
  | "<" => (linked? (compared? fun a b => decide (a < b)) vs).map .bool
  | ">" => (linked? (compared? fun a b => decide (b < a)) vs).map .bool
  | "<=" => (linked? (compared? fun a b => decide (a ≤ b)) vs).map .bool
  | ">=" => (linked? (compared? fun a b => decide (b ≤ a)) vs).map .bool
  | "+" => ((Value.reals? vs).bind (folded? (· + ·))).map .real
  | "*" => ((Value.reals? vs).bind (folded? (· * ·))).map .real
  | "/" => ((Value.reals? vs).bind (folded? arith.divide)).map .real
  | "-" =>
    match vs with
    | [v] => v.real?.map fun q => .real (-q)
    | _ => ((Value.reals? vs).bind (folded? (· - ·))).map .real
  | "ite" =>
    match vs with
    | [.bool c, yes, no] => some (if c then yes else no)
    | _ => none
  | _ => none

/-- The value of a name: the truth value or the numeral that it is, or the
value of the variable. -/
def named? (arith : Arithmetic) (env : String → Option Value) (name : String) : Option Value :=
  if name = "true" then some (.bool true)
  else if name = "false" then some (.bool false)
  else if Numeral.startsNumeral name then some (.real (arith.numeral name))
  else env name

/-- The values of variables inside a `let`; of several values for one name
the first in the list counts. -/
def bind (env : String → Option Value) (bound : List (String × Value)) (name : String) :
    Option Value :=
  (bound.lookup name).or (env name)

mutual

/-- The value of an expression. -/
def value? (arith : Arithmetic) (env : String → Option Value) : Expr → Option Value
  | .node name _ [] => named? arith env name
  | .node name _ (arg :: args) =>
    if name = "let" then letValue? arith env [] (arg :: args)
    else do operator? arith name (← values? arith env (arg :: args))

/-- The values of several expressions. -/
def values? (arith : Arithmetic) (env : String → Option Value) :
    List Expr → Option (List Value)
  | [] => some []
  | e :: es => do return (← value? arith env e) :: (← values? arith env es)

/-- The value of the body behind bindings, each of which is evaluated around
the `let`; the later of two bindings of one name comes to stand first. -/
def letValue? (arith : Arithmetic) (env : String → Option Value)
    (bound : List (String × Value)) : List Expr → Option Value
  | [body] => value? arith (bind env bound) body
  | .node name _ [e] :: next :: rest => do
    letValue? arith env ((name, ← value? arith env e) :: bound) (next :: rest)
  | _ => none

end

mutual

/-- Every argument of a `let` but the last is a bound name with one value. -/
def LetShaped : Expr → Prop
  | .node name _ args =>
    (name = "let" → ∀ binding ∈ args.dropLast, binding.args.length = 1) ∧ LetShapedAll args

/-- All expressions are so. -/
def LetShapedAll : List Expr → Prop
  | [] => True
  | e :: es => LetShaped e ∧ LetShapedAll es

end

end Expr

/-! ## Terms -/

/-- Values for the constants of the back end, which are known by sort and
symbol. -/
structure Interpretation where
  bool : String → Bool
  real : String → Rat

namespace Interpretation

/-- The value of a constant. -/
def value (interp : Interpretation) : BaseSort → String → Value
  | .bool, symbol => .bool (interp.bool symbol)
  | .real, symbol => .real (interp.real symbol)

@[simp] theorem sort_value (interp : Interpretation) (sort : BaseSort) (symbol : String) :
    (interp.value sort symbol).sort = sort := by
  cases sort <;> rfl

end Interpretation

/-- Whether a relation holds between two values; only reals are compared. -/
def Relation.holds? : Relation → Value → Value → Option Bool
  | .eq, a, b => some (a == b)
  | .lt, .real p, .real q => some (decide (p < q))
  | .gt, .real p, .real q => some (decide (p > q))
  | .le, .real p, .real q => some (decide (p ≤ q))
  | .ge, .real p, .real q => some (decide (p ≥ q))
  | _, _, _ => none

namespace Term

mutual

/-- The value of a term. -/
def value? (arith : Arithmetic) (interp : Interpretation) : Term → Option Value
  | .constant sort symbol => some (interp.value sort symbol)
  | .truth b => some (.bool b)
  | .numeral text => some (.real (arith.numeral text))
  | .conj parts => do return .bool ((← Value.bools? (← values? arith interp parts)).all id)
  | .disj parts => do return .bool ((← Value.bools? (← values? arith interp parts)).any id)
  | .not part => do return .bool !(← (← value? arith interp part).bool?)
  | .implies left right => do
    return .bool (!(← (← value? arith interp left).bool?) ||
      (← (← value? arith interp right).bool?))
  | .distinct parts => do return .bool (decide (← values? arith interp parts).Nodup)
  | .ite condition yes no => do
    let c ← (← value? arith interp condition).bool?
    let a ← value? arith interp yes
    let b ← value? arith interp no
    return if c then a else b
  | .relate relation left right => do
    return .bool (← relation.holds? (← value? arith interp left) (← value? arith interp right))
  | .operate operation left right => do
    return .real (arith.apply operation (← (← value? arith interp left).real?)
      (← (← value? arith interp right).real?))
  | .neg part => do return .real (-(← (← value? arith interp part).real?))

/-- The values of several terms. -/
def values? (arith : Arithmetic) (interp : Interpretation) : List Term → Option (List Value)
  | [] => some []
  | t :: ts => do return (← value? arith interp t) :: (← values? arith interp ts)

end

end Term

end SatScript
