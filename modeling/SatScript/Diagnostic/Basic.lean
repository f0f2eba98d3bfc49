import SatScript.Diagnostic.Template
import SatScript.Number.Shortest
import SatScript.Span
/-!
# SatScript — diagnostics

A diagnostic reports one thing: a code, how grave it is, a message made
from the template of the code, where it is, and the parameters of the
message.
-/

namespace SatScript

/-- How grave a diagnostic is. -/
inductive Severity where
  | error
  | warning
deriving DecidableEq

/-- The name of a severity. -/
def Severity.name : Severity → String
  | .error => "error"
  | .warning => "warning"

/-- What a diagnostic is about. -/
inductive Code where
  | malformed
  | unterminated
  | undefinedName
  | wrongCount
  | badNumeral
  | unknownCommand
  | usage
  | rename
  | backend
  | setting
deriving DecidableEq

namespace Code

/-- All codes. -/
def all : List Code :=
  [.malformed, .unterminated, .undefinedName, .wrongCount, .badNumeral, .unknownCommand,
   .usage, .rename, .backend, .setting]

/-- The number under which a code is reported. -/
def id : Code → String
  | .malformed => "E0001"
  | .unterminated => "E0002"
  | .undefinedName => "E0101"
  | .wrongCount => "E0102"
  | .badNumeral => "E0103"
  | .unknownCommand => "E0600"
  | .usage => "E0700"
  | .rename => "E0800"
  | .backend => "E0900"
  | .setting => "W0001"

/-- How grave the code is: only what is said of settings is a warning. -/
def severity : Code → Severity
  | .setting => .warning
  | _ => .error

/-- The template of the messages of a code. -/
def template : Code → String
  | .malformed => "Malformed expression: {detail}"
  | .unterminated => "Unterminated list starting at offset {offset}"
  | .undefinedName => "Undefined variable: {name}"
  | .wrongCount => "Wrong number of elements in {form}: expected {expected}, got {actual}"
  | .badNumeral => "Invalid numeral: {text}"
  | .unknownCommand => "Unknown command: {command}"
  | .usage => "{detail}"
  | .rename => "{detail}"
  | .backend => "Solver back end failed: {detail}"
  | .setting => "{detail}"

/-- The code that is reported under a number. -/
def ofId? (id : String) : Option Code := all.find? fun code => code.id == id

end Code

/-- The value of a parameter. -/
inductive Param where
  | text (value : String)
  | number (value : Number)
deriving DecidableEq

namespace Param

/-- A count as a parameter. -/
def count (n : Nat) : Param := .number (.finite n)

/-- How a parameter is written in a message. -/
def written : Param → String
  | .text value => value
  | .number value => value.text

end Param

/-- The parameters of a message, in the order in which they are filled in. -/
abbrev Params := List (String × Param)

/-- One thing that is reported. -/
structure Diagnostic where
  code : Code
  message : String
  place : Option Place
  params : Option Params
deriving DecidableEq

namespace Diagnostic

/-- The diagnostic of a code. Without parameters the placeholders stay in the
message. -/
def make (code : Code) (params : Option Params) (place : Option Place := none) : Diagnostic :=
  { code, place, params
    message :=
      match params with
      | none => code.template
      | some ps => Template.fill code.template (ps.map fun p => (p.1, p.2.written)) }

/-- How grave the diagnostic is. -/
def severity (diagnostic : Diagnostic) : Severity := diagnostic.code.severity

/-- The line of a report with this severity, code and message. -/
def line (severity code message : String) : String :=
  severity ++ "[" ++ code ++ "]: " ++ message

/-- The line that reports a diagnostic. -/
def format (diagnostic : Diagnostic) : String :=
  line diagnostic.severity.name diagnostic.code.id diagnostic.message

end Diagnostic

end SatScript
