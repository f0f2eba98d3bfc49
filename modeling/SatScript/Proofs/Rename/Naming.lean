import SatScript.Expr.Basic
import SatScript.Solver
/-!
# SatScript — expressions under new names

What becomes of an expression when variables and bound names get new names.
The free names are renamed by a function. The bound names get the names of
a list, one for each in the order of the text, and a variable that a `let`
binds is renamed with its binder. Nothing else of the expression changes:
neither operators nor sorts nor the shape (`sort_rename`).

The calls of a solver are renamed one after another, with one list of
names for the binders of all assertions.
-/

namespace SatScript

namespace Expr

/-- The new names inside a binder. -/
def named (env : String → String) (name new : String) : String → String :=
  fun other => if other = name then new else env other

mutual

/-- The expression under new names, and the names left for binders behind it. -/
def rename (env : String → String) (names : List String) : Expr → Expr × List String
  | .node name sort args =>
    if args.isEmpty then (.leaf (env name) sort, names)
    else
      let renamed :=
        if name = "let" then renameLet env env names args else renameAll env names args
      (.node name sort renamed.1, renamed.2)

/-- Expressions one after another under new names. -/
def renameAll (env : String → String) (names : List String) : List Expr → List Expr × List String
  | [] => ([], names)
  | expr :: exprs =>
    let first := rename env names expr
    let more := renameAll env first.2 exprs
    (first.1 :: more.1, more.2)

/-- What stands behind `let`: bound names, whose values see the names outside,
and the body, which sees the names inside. -/
def renameLet (outer inner : String → String) (names : List String) :
    List Expr → List Expr × List String
  | [] => ([], names)
  | expr :: exprs =>
    if exprs.isEmpty then
      let body := rename inner names expr
      ([body.1], body.2)
    else
      let bound := renameBound outer names expr
      let more := renameLet outer (named inner expr.name bound.1.name) bound.2 exprs
      (bound.1 :: more.1, more.2)

/-- A bound name gets the next name of the list. -/
def renameBound (outer : String → String) (names : List String) : Expr → Expr × List String
  | .node name sort value =>
    let renamed := renameAll outer names.tail value
    (.node (names.headD name) sort renamed.1, renamed.2)

end

/-- **Renaming keeps the sort.** -/
theorem sort_rename (env : String → String) (names : List String) (expr : Expr) :
    (expr.rename env names).1.sort = expr.sort := by
  cases expr with
  | node name sort args =>
    rw [rename]
    split <;> rfl

/-- Behind the last bound name stands the body. -/
theorem renameLet_singleton (outer inner : String → String) (names : List String) (body : Expr) :
    renameLet outer inner names [body] =
      ([(body.rename inner names).1], (body.rename inner names).2) := by
  rw [renameLet]
  rfl

/-- A bound name is renamed for what stands behind it. -/
theorem renameLet_cons (outer inner : String → String) (names : List String) (bound : Expr)
    {exprs : List Expr} (hne : exprs ≠ []) :
    renameLet outer inner names (bound :: exprs) =
      ((renameBound outer names bound).1 ::
        (renameLet outer (named inner bound.name (renameBound outer names bound).1.name)
          (renameBound outer names bound).2 exprs).1,
        (renameLet outer (named inner bound.name (renameBound outer names bound).1.name)
          (renameBound outer names bound).2 exprs).2) := by
  have hempty : exprs.isEmpty = false := by simpa using hne
  rw [renameLet, hempty, if_neg Bool.false_ne_true]

end Expr

/-- A call under new names, and the names left for the binders of later calls. -/
def Call.rename (free : String → String) (names : List String) : Call → Call × List String
  | .declare name sort => (.declare (free name) sort, names)
  | .assert expr =>
    let renamed := expr.rename free names
    (.assert renamed.1, renamed.2)
  | .check models => (.check models, names)

/-- Calls one after another under new names. -/
def Call.renameAll (free : String → String) (names : List String) :
    List Call → List Call × List String
  | [] => ([], names)
  | call :: calls =>
    let first := call.rename free names
    let more := renameAll free first.2 calls
    (first.1 :: more.1, more.2)

namespace Call

theorem renameAll_append (free : String → String) (names : List String) (calls more : List Call) :
    renameAll free names (calls ++ more) =
      ((renameAll free names calls).1 ++ (renameAll free (renameAll free names calls).2 more).1,
        (renameAll free (renameAll free names calls).2 more).2) := by
  induction calls generalizing names with
  | nil => rfl
  | cons call calls ih =>
    rw [List.cons_append, renameAll, ih, renameAll]
    rfl

end Call

end SatScript
