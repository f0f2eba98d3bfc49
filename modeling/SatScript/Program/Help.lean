import SatScript.Program.Arguments
/-!
# SatScript — help

The texts that the program prints about itself.
-/

namespace SatScript

/-- What the program is and how it is used. -/
def helpText : String :=
  "\n".intercalate
    ["sexpsat - check satisfiability of an SMT-LIB 2 constraint script",
     "",
     usage,
     "",
     "OPTIONS:",
     "  -h, --help                         Show this help message",
     "  -v, --version                      Show version information",
     "  -q, --quiet                        Do not write the trace to stderr",
     "  --strict                           Reject lists left open at end of input",
     "  --models                           Ask the solver for a model after sat",
     "  --timeout <ms>                     Solver timeout per check-sat",
     "  --config <file>                    Read configuration from a JSON or YAML file",
     "",
     "COMMANDS UNDERSTOOD:",
     "  (declare-fun <name> () Real|Bool)  Declare a variable",
     "  (assert <expr>)                    Add a constraint",
     "  (check-sat)                        Print sat, unsat or unknown",
     "  (exit)                             Stop reading input",
     "  (set-info ...) (set-logic ...) (define-fun ...) are ignored.",
     "",
     "EXAMPLES:",
     "  sexpsat problem.smt2",
     "  sexpsat --quiet --timeout 5000 problem.smt2"]

/-- The version of the program. -/
def versionText : String := "sexpsat v0.1.0"

end SatScript
