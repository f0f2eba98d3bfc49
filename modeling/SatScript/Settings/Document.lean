import SatScript.Json.Basic
import SatScript.Settings.Basic
/-!
# SatScript — settings from documents

A document has sections, and a section has entries. Only entries of
plain values are settings: flags and numbers. A setting may be entered
under either of two names, and the first of them that holds a value of
the right kind counts; whatever else a document holds is left aside.
-/

namespace SatScript

/-- A plain value of a document. -/
inductive Scalar where
  | flag (value : Bool)
  | number (value : Number)
  | text (value : String)
deriving DecidableEq

namespace Scalar

/-- The flag, if the value is one. -/
def flag? : Scalar → Option Bool
  | .flag value => some value
  | _ => none

/-- The number, if the value is one and finite. -/
def number? : Scalar → Option Number
  | .number value => if value.isFinite then some value else none
  | _ => none

/-- The plain value that a JSON value is. -/
def ofJson? : Json → Option Scalar
  | .bool value => some (.flag value)
  | .number value => some (.number value)
  | .string value => some (.text value)
  | _ => none

end Scalar

namespace Overrides

/-- The settings that a document gives, through look-up by section and
entry. -/
def ofLookup (value : String → String → Option Scalar) : Overrides where
  strictLists := ["strictLists", "strict_lists"].findSome? (flag "reader")
  fractionalNumerals :=
    ["fractionalNumerals", "fractional_numerals"].findSome? (flag "elaboration")
  timeout := ["timeoutMs", "timeout_ms"].findSome? fun name =>
    (value "solver" name).bind Scalar.number?
  produceModels := ["produceModels", "produce_models"].findSome? (flag "solver")
  tracing := ["enabled"].findSome? (flag "trace")
where
  flag (part name : String) : Option Bool := (value part name).bind Scalar.flag?

/-- The settings that a JSON value gives; only an object gives any. -/
def ofJson (json : Json) : Overrides :=
  ofLookup fun part name =>
    ((json.member? part).bind fun entries => entries.member? name).bind Scalar.ofJson?

end Overrides

end SatScript
