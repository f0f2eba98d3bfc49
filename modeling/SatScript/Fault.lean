import SatScript.BaseSort
import SatScript.Diagnostic.Basic
/-!
# SatScript — faults of scripts

What can be wrong with a script. A fault is a cause, with the span it is
found at; only the back end knows no span. Causes hold what they are
about, and their wording is given once, in `message`.
-/

namespace SatScript

/-- A form that has not the shape it should have; `written` is the form as it
is written canonically. -/
inductive ShapeFault where
  | emptyExpression
  | listAsOperator (written : String)
  | atomForBindings (text : String)
  | notABinding (written : String)
  | atomForCommand (text : String)
  | namelessCommand (written : String)
  | namelessDeclaration
  | declaredParameters (written : String)
  | declaredSort (written : String)
deriving DecidableEq

/-- The wording of a shape fault. -/
def ShapeFault.message : ShapeFault → String
  | .emptyExpression => "empty list in expression position"
  | .listAsOperator written => "operator position holds a list in " ++ written
  | .atomForBindings text => "let bindings must be a list, got " ++ text
  | .notABinding written => "let binding must be (name value), got " ++ written
  | .atomForCommand text => "expected a command, got atom " ++ text
  | .namelessCommand written => "command name missing in " ++ written
  | .namelessDeclaration => "declare-fun expects a variable name"
  | .declaredParameters written => "only nullary declarations are supported: " ++ written
  | .declaredSort written => "declared sort must be Real or Bool in " ++ written

/-- An expression that the back end has no term for. -/
inductive BackendFault where
  | noTerm (name : String)
  | noBody
  | noValue (name : String)
  | wrongSort (operator : String) (expected actual : BaseSort)
  | mixedEquality (left right : BaseSort)
  | oneArgument (operator : String) (actual : Nat)
  | someArguments (operator : String)
  | threeArguments
  | mixedBranches
  | unsupported (operator : String)
deriving DecidableEq

/-- The wording of a back end fault. -/
def BackendFault.message : BackendFault → String
  | .noTerm name => "no term for variable " ++ name
  | .noBody => "let without body"
  | .noValue name => "let binding " ++ name ++ " has no value"
  | .wrongSort operator expected actual =>
    operator ++ " expects " ++ expected.name ++ ", got " ++ actual.name
  | .mixedEquality left right => "= applied to " ++ left.name ++ " and " ++ right.name
  | .oneArgument operator actual =>
    operator ++ " expects 1 argument, got " ++ toString actual
  | .someArguments operator => operator ++ " expects arguments"
  | .threeArguments => "ite expects 3 arguments"
  | .mixedBranches => "ite branches have different sorts"
  | .unsupported operator => "unsupported operator " ++ operator

/-- How many elements a form should have. -/
inductive Expected where
  | exactly (n : Nat)
  | atLeast (n : Nat)
deriving DecidableEq

/-- An expected count as the parameter of a message. -/
def Expected.param : Expected → Param
  | .exactly n => .count n
  | .atLeast n => .text ("at least " ++ toString n)

/-- What is wrong with a script. -/
inductive Cause where
  | shape (fault : ShapeFault)
  | unterminated (offset : Nat)
  | undefinedName (name : String)
  | wrongCount (form : String) (expected : Expected) (actual : Nat)
  | badNumeral (text : String)
  | unknownCommand (command : String)
  | backend (fault : BackendFault)
deriving DecidableEq

namespace Cause

/-- The code of a cause. -/
def code : Cause → Code
  | .shape _ => .malformed
  | .unterminated _ => .unterminated
  | .undefinedName _ => .undefinedName
  | .wrongCount .. => .wrongCount
  | .badNumeral _ => .badNumeral
  | .unknownCommand _ => .unknownCommand
  | .backend _ => .backend

/-- The parameters of the message of a cause. -/
def params : Cause → Params
  | .shape fault => [("detail", .text fault.message)]
  | .unterminated offset => [("offset", .count offset)]
  | .undefinedName name => [("name", .text name)]
  | .wrongCount form expected actual =>
    [("form", .text form), ("expected", expected.param), ("actual", .count actual)]
  | .badNumeral text => [("text", .text text)]
  | .unknownCommand command => [("command", .text command)]
  | .backend fault => [("detail", .text fault.message)]

end Cause

/-- A cause and where it was found. -/
structure Fault where
  cause : Cause
  span : Option Span
deriving DecidableEq

namespace Fault

/-- A cause found at a span. -/
def found (cause : Cause) (span : Span) : Fault := ⟨cause, some span⟩

/-- A fault as a diagnostic. -/
def diagnostic (fault : Fault) : Diagnostic :=
  Diagnostic.make fault.cause.code (some fault.cause.params)
    (fault.span.map fun span => { span })

end Fault

end SatScript
