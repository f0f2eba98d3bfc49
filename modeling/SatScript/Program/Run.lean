import SatScript.Program.Help
import SatScript.Session.Run
import SatScript.Settings.Files
import SatScript.Term.Backend
/-!
# SatScript — the program

The program as a function of its surroundings: files, standard input,
environment, and what the solver library answers to checks and gives as
values. It yields an exit code, the lines of standard output and standard
error, and what the library was asked.

Help and version come before everything else. Then the arguments have to
ask for one script (exit code 2), the settings have to load and to be
valid, and the script has to be there and to run (exit code 1).
-/

namespace SatScript

/-- What surrounds the program. -/
structure Host where
  files : Files
  stdin : String
  environment : Environment
  answers : Answers String
  values : Values := fun _ _ => ""

/-- The solver library around the program, which is not loaded yet. -/
def Host.library (host : Host) : Library := { answers := host.answers, values := host.values }

/-- What the program does. -/
structure Effects where
  exitCode : Nat
  stdout : List String := []
  stderr : List String := []
  log : List LibraryCall := []

namespace Program

/-- How a run is set up. -/
def optionsOf (settings : Settings) : Options where
  strictLists := settings.strictLists
  fractionalNumerals := settings.fractionalNumerals
  produceModels := settings.produceModels
  tracing := settings.tracing

/-- Why a file cannot be read. -/
inductive ReadFault where
  | missing (path : String)
  | underFile (path : String)
  | nameTooLong (path : String)
  | isDirectory
deriving DecidableEq

/-- The wording of a read fault. -/
def ReadFault.message : ReadFault → String
  | .missing path => "ENOENT: no such file or directory, open '" ++ path ++ "'"
  | .underFile path => "ENOTDIR: not a directory, open '" ++ path ++ "'"
  | .nameTooLong path => "ENAMETOOLONG: name too long, open '" ++ path ++ "'"
  | .isDirectory => "EISDIR: illegal operation on a directory, read"

/-- The text of a script; a hyphen is standard input. -/
def readScript (host : Host) (file : String) : Except ReadFault String :=
  if file = "-" then .ok host.stdin
  else
    match host.files file with
    | .text contents => .ok contents
    | .missing => .error (.missing file)
    | .underFile => .error (.underFile file)
    | .nameTooLong => .error (.nameTooLong file)
    | .directory => .error .isDirectory

/-- The line that reports an error of the program. -/
def errorLine (message : String) : String := "Error: " ++ message

/-- The line that reports a fault of the script: its file and offset come
first, if the offset is known. -/
def describe (file : String) (fault : Fault) : String :=
  let line := fault.diagnostic.format
  match fault.span with
  | none => line
  | some span => file ++ "@" ++ toString span.start ++ ": " ++ line

/-- Run the text of a script. -/
def runText (host : Host) (file : String) (settings : Settings) (script : String) : Effects :=
  let backend := Backend.start host.library (some settings.timeout)
  let result := Session.run (optionsOf settings) backend script.toList
  let trace := result.session.trace.map Event.text
  let effects : Effects :=
    { exitCode := 0
      stdout := result.session.lines
      stderr := trace
      log := result.session.solver.library.log }
  match result.ending with
  | .ok _ => effects
  | .error fault => { effects with exitCode := 1, stderr := trace ++ [describe file fault] }

/-- Run a script with settings that were loaded. -/
def runWith (host : Host) (file : String) (settings : Settings) : Effects :=
  let warnings := settings.warnings.map fun remark => remark.diagnostic.format
  if settings.isValid then
    match readScript host file with
    | .error fault => { exitCode := 1, stderr := warnings ++ [errorLine fault.message] }
    | .ok script =>
      let effects := runText host file settings script
      { effects with stderr := warnings ++ effects.stderr }
  else
    { exitCode := 1
      stderr := warnings ++ settings.errors.map fun remark => "error: " ++ remark.message }

/-- Do a job. -/
def runJob (host : Host) (job : Job) : Effects :=
  match Settings.load host.files host.environment job.configFile "" job.overrides with
  | .error fault => { exitCode := 1, stderr := [errorLine fault.message] }
  | .ok settings => runWith host job.file settings

/-- The whole program. -/
def run (host : Host) (words : List String) : Effects :=
  let arguments := Arguments.parse words
  if arguments.help then { exitCode := 0, stdout := [helpText] }
  else if arguments.version then { exitCode := 0, stdout := [versionText] }
  else
    match arguments.job with
    | .error fault => { exitCode := 2, stderr := [fault.diagnostic.message] }
    | .ok job => runJob host job

end Program

end SatScript
