import SatScript.Program.Run
/-!
# SatScript — the executable

Gathers what surrounds the program, runs the program on it, and prints
what the program says. No solver is linked in, so the answer to every
check is `unknown`.
-/

namespace SatScript

namespace Executable

/-- What a path leads to. A directory can be opened and not read, and only a
failure to open carries the name of the file. An argument is invalid if it
is too long to be a name, or if no name can hold its characters; then
nothing has the name. A failure of another kind ends the executable. -/
def fileStatus (path : String) : IO FileStatus := do
  match ← (IO.FS.readFile path).toBaseIO with
  | .ok contents => return .text contents
  | .error (.noFileOrDirectory ..) => return .missing
  | .error (.inappropriateType none ..) => return .directory
  | .error (.inappropriateType (some _) ..) => return .underFile
  | .error (.invalidArgument _ _ "name too long") => return .nameTooLong
  | .error (.invalidArgument ..) => return .missing
  | .error fault => throw fault

/-- What some paths lead to; any other path counts as missing. -/
def gatherFiles (paths : List String) : IO Files := do
  let entries ← paths.mapM fun path => return (path, ← fileStatus path)
  let table := Table.ofList entries
  return fun path => (table.get? path).getD .missing

/-- The variables that have to do with settings. -/
def gatherEnvironment : IO Environment := do
  let names := SettingVariable.all.map (SettingVariable.name Environment.stem)
  let entries ← names.filterMapM fun name => do
    return (← IO.getEnv name).map fun word => (name, word)
  return Table.ofList entries

/-- All of standard input, after what was read before. -/
partial def gatherInput (stream : IO.FS.Stream) (before : String) : IO String := do
  let line ← stream.getLine
  if line = "" then return before else gatherInput stream (before ++ line)

/-- What surrounds the program when it has these arguments. Standard input is
read only for a script that is to come from there. -/
def gatherHost (arguments : Arguments) : IO Host := do
  let paths := arguments.files ++ arguments.configFile.toList ++ Settings.defaultFiles
  let stdin ← if "-" ∈ arguments.files then gatherInput (← IO.getStdin) "" else pure ""
  return {
    files := ← gatherFiles paths
    stdin
    environment := ← gatherEnvironment
    answers := ⟨[Verdict.unknown.text]⟩ }

end Executable

end SatScript

/-- Run the program in its surroundings. -/
def main (words : List String) : IO UInt32 := do
  let host ← SatScript.Executable.gatherHost (SatScript.Arguments.parse words)
  let effects := SatScript.Program.run host words
  effects.stdout.forM fun line => IO.println line
  effects.stderr.forM fun line => IO.eprintln line
  return effects.exitCode.toUInt32
