import SatScript.Json.Reader
import SatScript.Path
import SatScript.Settings.Environment
import SatScript.Settings.Sections
import SatScript.Text.LowerCase
/-!
# SatScript — settings from files

A file of settings is JSON or sections, as its extension says. The
settings of a run come from the environment, then a file, then overrides.
The file is the one given, else the first that is there of three names.
-/

namespace SatScript

/-- What a path leads to: nothing, a name below a file, a name longer than
names can be, a directory, or a text. -/
inductive FileStatus where
  | missing
  | underFile
  | nameTooLong
  | directory
  | text (contents : String)
deriving DecidableEq

/-- What paths lead to. -/
abbrev Files := String → FileStatus

/-- Why a file of settings gives none. -/
inductive SettingsFault where
  | notFound (path : String)
  | isDirectory
  | unknownFormat (extension : String)
  | notJson (fault : Json.Fault)
deriving DecidableEq

/-- The wording of a settings fault. -/
def SettingsFault.message : SettingsFault → String
  | .notFound path => "Config file not found: " ++ path
  | .isDirectory => "EISDIR: illegal operation on a directory, read"
  | .unknownFormat extension => "Unsupported config file format: " ++ extension
  | .notJson fault => fault.message

namespace Settings

/-- What the text of a file says, by its extension. -/
def ofText (extension : List Char) (contents : String) : Except SettingsFault Overrides :=
  let format := String.ofList (Text.lower extension)
  if format = ".json" then
    match Json.read contents.toList with
    | .error fault => .error (.notJson fault)
    | .ok json => .ok (Overrides.ofJson json)
  else if format = ".yaml" ∨ format = ".yml" then
    .ok (Overrides.ofSections (Sections.read contents.toList))
  else .error (.unknownFormat format)

/-- What a file says. -/
def ofFile (files : Files) (path : String) : Except SettingsFault Overrides :=
  match files path with
  | .missing => .error (.notFound path)
  | .underFile => .error (.notFound path)
  | .nameTooLong => .error (.notFound path)
  | .directory => .error .isDirectory
  | .text contents => ofText (Path.extension path) contents

/-- The names under which a file of settings is looked for. -/
def defaultFiles : List String :=
  ["sexpsat.config.json", "sexpsat.config.yaml", "sexpsat.config.yml"]

/-- Whether something is there. -/
def isThere (files : Files) (path : String) : Bool :=
  match files path with
  | .missing => false
  | .underFile => false
  | .nameTooLong => false
  | .directory => true
  | .text _ => true

/-- The file of settings: the one given, else the first default that is
there. An empty path gives none. -/
def selectedFile (files : Files) (given : Option String) (directory : String) : Option String :=
  match given with
  | some path => if path = "" then first else some path
  | none => first
where
  first : Option String := (defaultFiles.map (Path.inDirectory directory)).find? (isThere files)

/-- What the selected file says; without a file, nothing. -/
def ofSelectedFile (files : Files) (given : Option String) (directory : String) :
    Except SettingsFault Overrides :=
  match selectedFile files given directory with
  | none => .ok {}
  | some path => ofFile files path

/-- The settings of a run: overrides before the file, the file before the
environment, the environment before the defaults. -/
def load (files : Files) (environment : Environment) (given : Option String)
    (directory : String) (overrides : Overrides) : Except SettingsFault Settings :=
  match ofSelectedFile files given directory with
  | .error fault => .error fault
  | .ok file =>
    .ok (((environment.settings Environment.stem).override file).override overrides)

end Settings

end SatScript
