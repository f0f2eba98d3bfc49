import SatScript.Number.Basic
import SatScript.Solver
import SatScript.Term.Lowering
/-!
# SatScript — the term back end

The solver that hands terms to a library. What the library is asked is
kept in a log; its answers to checks are given beforehand, and so are the
values that its models give to terms, which depend on what it was asked
before. The library is loaded once, for the first back end, and again
after it was released.
-/

namespace SatScript

/-- Something the library was asked. -/
inductive LibraryCall where
  | load
  | context
  | timeout (milliseconds : Number)
  | add (term : Term)
  | check
  | eval (term : Term)
  | terminate

/-- The texts of the values that terms have in the model of the last check, after
the calls that the library got. -/
abbrev Values := List LibraryCall → Term → String

/-- The library behind the back end. -/
structure Library where
  answers : Answers String
  values : Values := fun _ _ => ""
  loaded : Bool := false
  log : List LibraryCall := []

namespace Library

/-- Keep calls in the log. -/
def keep (library : Library) (calls : List LibraryCall) : Library :=
  { library with log := library.log ++ calls }

/-- Load the library unless it is loaded. -/
def load (library : Library) : Library :=
  if library.loaded then library else { library.keep [.load] with loaded := true }

/-- Stop the library if it is loaded. -/
def stop (library : Library) : Library :=
  if library.loaded then { library.keep [.terminate] with loaded := false } else library

/-- The value of a term in the model of the last check. -/
def value (library : Library) (term : Term) : String := library.values library.log term

end Library

/-- The library, and the terms of the declared variables. -/
structure Backend where
  library : Library
  declared : Table SortedTerm := Table.empty

namespace Backend

/-- A back end on a library, which is loaded for it; a time limit that is not
positive is none. -/
def start (library : Library) (timeout : Option Number) : Backend :=
  let library := library.load.keep [.context]
  match timeout with
  | none => { library }
  | some limit => { library := if limit.above 0 then library.keep [.timeout limit] else library }

/-- Declare a variable. A variable that is declared again keeps its place. -/
def declare (backend : Backend) (name : String) (sort : BaseSort) : Backend :=
  { backend with declared := backend.declared.set name (Term.ofDeclaration name sort) }

/-- Add an assertion. -/
def assert (backend : Backend) (expr : Expr) : Except BackendFault Backend := do
  let term ← Term.ofAssertion backend.declared expr
  return { backend with library := backend.library.keep [.add term] }

/-- The value of every variable in the model of the last check, in the order of
their declaration. -/
def model (backend : Backend) : Table String :=
  backend.declared.map fun known => backend.library.value known.term

/-- Check the assertions so far; a model is asked for only if there is one. -/
def check (backend : Backend) (models : Bool) : Findings × Backend :=
  let (answer, answers) := backend.library.answers.next Verdict.unknown.text
  let verdict := Verdict.ofAnswer answer
  let library := { backend.library.keep [.check] with answers }
  if verdict = .satisfiable ∧ models then
    let calls := backend.declared.entries.map fun entry => LibraryCall.eval entry.2.term
    ({ verdict, model := some { backend with library }.model },
      { backend with library := library.keep calls })
  else ({ verdict }, { backend with library })

instance : Solver Backend where
  declare := declare
  assert := assert
  check := check

end Backend

end SatScript
