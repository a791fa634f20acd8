import MethodContracts.Analysis.Analyzer

/-!
# Settings from the environment

A batch run is set up by three environment variables: where the cache lives, which file holds
the configuration, and how guards are classified, which overrides the rule in the file. A
variable whose value is blank counts as not set.

The environment and the files are functions here, so that the order of the reads and of the
faults is part of the definition.
-/

namespace MethodContracts

/-- How a batch run is set up. Without a path the cache lives in memory. -/
structure Settings where
  cachePath : Option String
  config : Config
deriving DecidableEq, Repr

/-- Why a file cannot be read. -/
inductive FileError where
  | missing
  | notUnicode
deriving DecidableEq, Repr

/-- The text of a fault with a file. -/
def FileError.message : FileError → String
  | .missing => "No such file or directory (os error 2)"
  | .notUnicode => "stream did not contain valid UTF-8"

namespace Settings

/-- The variable for the path of the cache. -/
def cachePathVariable : String := "ILCONTRACT_CACHE_PATH"

/-- The variable for the path of the configuration. -/
def configVariable : String := "ILCONTRACT_EXTRACTOR_CONFIG"

/-- The variable for the rule for guards. -/
def legacyRuleVariable : String := "ILCONTRACT_LEGACY_RULE"

/-- The settings of an empty environment. -/
def standard : Settings := ⟨none, .standard⟩

/-- The value of a variable that is set. -/
def value? (environment : String → Option String) (variableName : String) : Option String :=
  (environment variableName).filter fun value => !Text.isAllBlank value

/-- The configuration in a file. -/
def configOfFile (file : String → Except FileError String) (path : String) :
    Except AnalysisError Config :=
  match file path with
  | .error why => .error (.file path why.message)
  | .ok text => (Config.ofText (.ofString text)).mapError fun why =>
      .setting configVariable why.message

/-- The configuration with the rule that the environment asks for. -/
def overrideRule (config : Config) : Option String → Except AnalysisError Config
  | none => .ok config
  | some name =>
    match LegacyRule.ofName name with
    | .ok rule => .ok (config.withLegacyRule rule)
    | .error why => .error (.setting legacyRuleVariable why.message)

/-- Reads the settings: the configuration first, then the rule. -/
def ofEnvironment (environment : String → Option String)
    (file : String → Except FileError String) : Except AnalysisError Settings := do
  let config ←
    match value? environment configVariable with
    | some path => configOfFile file path
    | none => .ok .standard
  let config ← overrideRule config (value? environment legacyRuleVariable)
  return ⟨value? environment cachePathVariable, config⟩

end Settings

end MethodContracts
