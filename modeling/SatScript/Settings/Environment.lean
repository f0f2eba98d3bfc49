import SatScript.Settings.Basic
import SatScript.Table
import SatScript.Text.Digits
import SatScript.Text.LowerCase
/-!
# SatScript — settings from the environment

Each setting has a variable, named by a common stem and the setting. A
flag is read from a few words, whatever their case; a number from the
integer that the value begins with. A value that says nothing leaves the
default.
-/

namespace SatScript

/-- The variables of an environment. -/
abbrev Environment := Table String

/-- The settings that have a variable. -/
inductive SettingVariable where
  | strictLists
  | fractionalNumerals
  | timeout
  | produceModels
  | tracing
deriving DecidableEq

namespace SettingVariable

/-- The settings that have a variable. -/
def all : List SettingVariable :=
  [.strictLists, .fractionalNumerals, .timeout, .produceModels, .tracing]

/-- What follows the stem in the name of a variable. -/
def ending : SettingVariable → String
  | .strictLists => "STRICT_LISTS"
  | .fractionalNumerals => "FRACTIONAL_NUMERALS"
  | .timeout => "SOLVER_TIMEOUT_MS"
  | .produceModels => "PRODUCE_MODELS"
  | .tracing => "TRACE"

/-- The name of a variable. -/
def name (stem : String) (setting : SettingVariable) : String := stem ++ "_" ++ setting.ending

end SettingVariable

namespace Environment

/-- The flag that a word stands for. -/
def flag? (word : String) : Option Bool :=
  let lower := String.ofList (Text.lower word.toList)
  if ["1", "true", "yes", "on"].contains lower then some true
  else if ["0", "false", "no", "off"].contains lower then some false
  else none

/-- The number that a word begins with. -/
def number? (word : String) : Option Number :=
  (Text.leadingInteger? word.toList).map Number.ofInt

/-- The word that the environment has for a setting. -/
def word? (environment : Environment) (stem : String) (setting : SettingVariable) :
    Option String :=
  environment.get? (setting.name stem)

/-- What the environment says about the settings. -/
def overrides (environment : Environment) (stem : String) : Overrides where
  strictLists := (environment.word? stem .strictLists).bind flag?
  fractionalNumerals := (environment.word? stem .fractionalNumerals).bind flag?
  timeout := (environment.word? stem .timeout).bind number?
  produceModels := (environment.word? stem .produceModels).bind flag?
  tracing := (environment.word? stem .tracing).bind flag?

/-- The stem of the variables, unless another is given. -/
def stem : String := "SEXPSAT"

/-- The settings that the environment and the defaults give. -/
def settings (environment : Environment) (stem : String) : Settings :=
  Settings.override {} (environment.overrides stem)

end Environment

end SatScript
