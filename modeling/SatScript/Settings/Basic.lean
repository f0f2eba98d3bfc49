import SatScript.Diagnostic.Basic
import SatScript.Number.Basic
/-!
# SatScript — settings

The settings of a run, what a source of settings says about them, and
what is worth remarking on. A source gives some settings and leaves the
others as they are, so sources are merged setting by setting and the
later one counts.
-/

namespace SatScript

/-- How a script is read and run. A time limit of zero is none. -/
structure Settings where
  strictLists : Bool := false
  fractionalNumerals : Bool := true
  timeout : Number := .finite 0
  produceModels : Bool := false
  tracing : Bool := true
deriving DecidableEq

/-- The settings that one source gives. -/
structure Overrides where
  strictLists : Option Bool := none
  fractionalNumerals : Option Bool := none
  timeout : Option Number := none
  produceModels : Option Bool := none
  tracing : Option Bool := none
deriving DecidableEq

namespace Settings

/-- The settings with those that are given put in their place. -/
def override (settings : Settings) (overrides : Overrides) : Settings where
  strictLists := overrides.strictLists.getD settings.strictLists
  fractionalNumerals := overrides.fractionalNumerals.getD settings.fractionalNumerals
  timeout := overrides.timeout.getD settings.timeout
  produceModels := overrides.produceModels.getD settings.produceModels
  tracing := overrides.tracing.getD settings.tracing

/-- The settings after several sources; the last that gives a setting
counts. -/
def overrideAll (settings : Settings) (sources : List Overrides) : Settings :=
  sources.foldl override settings

end Settings

/-- Something worth remarking on in settings. -/
inductive Remark where
  | negativeTimeout
  | lowTimeout
  | fractionsRefused
deriving DecidableEq

/-- The wording of a remark. -/
def Remark.message : Remark → String
  | .negativeTimeout => "solver.timeoutMs must not be negative"
  | .lowTimeout => "solver.timeoutMs is very low, most checks will come back unknown"
  | .fractionsRefused =>
    "fractional numerals disabled: decimals other than n.0 are rejected"

/-- A warning as a diagnostic. -/
def Remark.diagnostic (remark : Remark) : Diagnostic :=
  Diagnostic.make .setting (some [("detail", .text remark.message)])

namespace Settings

/-- What makes the settings unusable. -/
def errors (settings : Settings) : List Remark :=
  if settings.timeout.below 0 then [.negativeTimeout] else []

/-- What is usable but probably not meant. -/
def warnings (settings : Settings) : List Remark :=
  (if settings.timeout.above 0 && settings.timeout.below 10 then [.lowTimeout] else []) ++
    (if settings.fractionalNumerals then [] else [.fractionsRefused])

/-- Whether the settings can be used. -/
def isValid (settings : Settings) : Bool := settings.errors.isEmpty

end Settings

end SatScript
