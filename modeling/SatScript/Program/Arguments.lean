import SatScript.Settings.Basic
import SatScript.Text.Digits
/-!
# SatScript — command line arguments

The arguments of the program are grouped first: a flag, an option with
its value, an unknown option, or a file. The value of an option is taken
whatever it looks like. The groups are then taken one after another; of
several values for an option the last counts, and a time limit that is no
number says nothing.
-/

namespace SatScript

/-- One group of arguments. -/
inductive Argument where
  | help
  | version
  | quiet
  | strict
  | models
  | config (path : Option String)
  | timeout (value : Option String)
  | unknown (option : String)
  | file (name : String)
deriving DecidableEq

namespace Argument

/-- What an argument is that is no option with a value. A single hyphen is a
file. -/
def ofWord (word : String) : Argument :=
  if word = "--help" ∨ word = "-h" then .help
  else if word = "--version" ∨ word = "-v" then .version
  else if word = "--quiet" ∨ word = "-q" then .quiet
  else if word = "--strict" then .strict
  else if word = "--models" then .models
  else if word.toList.head? = some '-' ∧ word ≠ "-" then .unknown word
  else .file word

/-- Group arguments. An option at the end has no value. -/
def group : List String → List Argument
  | [] => []
  | ["--config"] => [.config none]
  | ["--timeout"] => [.timeout none]
  | "--config" :: value :: rest => .config (some value) :: group rest
  | "--timeout" :: value :: rest => .timeout (some value) :: group rest
  | word :: rest => ofWord word :: group rest

end Argument

/-- What the arguments say. -/
structure Arguments where
  help : Bool := false
  version : Bool := false
  quiet : Bool := false
  strict : Bool := false
  models : Bool := false
  configFile : Option String := none
  timeout : Option Number := none
  files : List String := []
  unknown : List String := []
deriving DecidableEq

namespace Arguments

/-- Take one group. -/
def take (arguments : Arguments) : Argument → Arguments
  | .help => { arguments with help := true }
  | .version => { arguments with version := true }
  | .quiet => { arguments with quiet := true }
  | .strict => { arguments with strict := true }
  | .models => { arguments with models := true }
  | .config path => { arguments with configFile := path }
  | .timeout value =>
    match value.bind fun v => Text.leadingInteger? v.toList with
    | none => arguments
    | some n => { arguments with timeout := some (Number.ofInt n) }
  | .unknown option => { arguments with unknown := arguments.unknown ++ [option] }
  | .file name => { arguments with files := arguments.files ++ [name] }

/-- What the arguments say. -/
def parse (words : List String) : Arguments := (Argument.group words).foldl take {}

end Arguments

/-- The line that tells how the program is used. -/
def usage : String := "Usage: sexpsat [options] <smtlib2 file>"

/-- Why arguments ask for nothing that can be done. -/
inductive UsageFault where
  | unknownOptions (options : List String)
  | notOneFile
deriving DecidableEq

namespace UsageFault

/-- The wording of a usage fault. -/
def message : UsageFault → String
  | .unknownOptions options => "unknown option " ++ ", ".intercalate options ++ "\n" ++ usage
  | .notOneFile => usage

/-- A usage fault as a diagnostic. -/
def diagnostic (fault : UsageFault) : Diagnostic :=
  Diagnostic.make .usage (some [("detail", .text fault.message)])

end UsageFault

/-- What the program is to do: run a script with settings from a file and
from the arguments. -/
structure Job where
  file : String
  configFile : Option String
  overrides : Overrides
deriving DecidableEq

namespace Arguments

/-- The settings that the arguments give. -/
def overrides (arguments : Arguments) : Overrides where
  strictLists := if arguments.strict then some true else none
  timeout := arguments.timeout
  produceModels := if arguments.models then some true else none
  tracing := if arguments.quiet then some false else none

/-- What the arguments ask for: no unknown option, and exactly one file. -/
def job (arguments : Arguments) : Except UsageFault Job :=
  if arguments.unknown ≠ [] then .error (.unknownOptions arguments.unknown)
  else
    match arguments.files with
    | [file] =>
      .ok
        { file
          configFile := arguments.configFile.filter (· ≠ "")
          overrides := arguments.overrides }
    | _ => .error .notOneFile

end Arguments

end SatScript
