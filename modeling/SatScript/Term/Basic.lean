import SatScript.BaseSort
/-!
# SatScript — terms

The terms of the back end. Constants are known by sort and symbol; real
values are given by the text of a numeral. A sorted term is a term with
the sort it was built at.
-/

namespace SatScript

/-- Relations between two terms. -/
inductive Relation where
  | eq
  | lt
  | gt
  | le
  | ge
deriving DecidableEq

/-- Operations on two reals. -/
inductive Operation where
  | add
  | sub
  | mul
  | div
deriving DecidableEq

/-- A term of the back end. -/
inductive Term where
  | constant (sort : BaseSort) (symbol : String)
  | truth (value : Bool)
  | numeral (text : String)
  | conj (parts : List Term)
  | disj (parts : List Term)
  | not (part : Term)
  | implies (left right : Term)
  | distinct (parts : List Term)
  | ite (condition yes no : Term)
  | relate (relation : Relation) (left right : Term)
  | operate (operation : Operation) (left right : Term)
  | neg (part : Term)
deriving Inhabited

/-- A term with its sort. -/
structure SortedTerm where
  sort : BaseSort
  term : Term

namespace Term

/-- The symbol of a name: bars around it are quotes and no part of it. -/
def symbolOf (name : String) : String :=
  match name.toList with
  | '|' :: rest =>
    match rest.getLast? with
    | some '|' => String.ofList rest.dropLast
    | _ => name
  | _ => name

/-- The constant that a declared name stands for. -/
def ofDeclaration (name : String) (sort : BaseSort) : SortedTerm :=
  ⟨sort, .constant sort (symbolOf name)⟩

end Term

end SatScript
