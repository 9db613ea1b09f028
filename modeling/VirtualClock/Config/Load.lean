import VirtualClock.Config
import VirtualClock.Config.Inline
import VirtualClock.Config.Yaml
import VirtualClock.Files

/-!
Loading the configuration in layers, of which the later ones win: the defaults, the base file, the
file of the environment, and environment variables.
-/

namespace VirtualClock.Config

/-- Names and values of environment variables. -/
abbrev Environment := List (String × String)

/-- The base file. -/
def baseFile : String := "config/tackle.yaml"

/-- What the names of environment variables for settings start with, whatever its case. -/
def marker : List Char := "tackle_".toList

/-- A text with every pair of underscores replaced by a point. -/
def pointed : List Char → List Char
  | '_' :: '_' :: rest => '.' :: pointed rest
  | c :: rest => c :: pointed rest
  | [] => []

/-- The path of the setting that an environment variable is for. Names that are empty between two
points belong to no setting. -/
def settingPath? (name : String) : Option (List String) :=
  let cs := (Text.trim name.toList).map Char.toLower
  if !marker.isPrefixOf cs then none
  else
    let path := (String.ofList (pointed (cs.drop marker.length))).splitOn "."
    if path.contains "" then none else some path

/-- The settings of the environment variables. -/
def environmentLayer (env : Environment) : List (String × Value) :=
  env.foldl (fun under (name, text) =>
    match settingPath? name with
    | none => under
    | some path =>
      match Value.nest path (Value.Inline.ofString text) with
      | .table above => Value.mergeEntries under above
      | _ => under) []

/-- The settings of a file; there are none in what is no file. -/
def fileLayer (files : FileTree) (path : String) : Except ConfigError (List (String × Value)) :=
  match files.read? path with
  | none => .ok []
  | some text =>
    match text >>= Value.ofYaml? with
    | some entries => .ok entries
    | none => .error .parsing

variable [LogFilter.PatternEngine]

/-- The configuration of layers, from the lowest one up. -/
def ofLayers (layers : List (List (String × Value))) : Except ConfigError Config :=
  match ofEntries? (layers.foldl Value.mergeEntries (toEntries {})) with
  | none => .error .parsing
  | some c => c.check

/-- The file of the environment, which is `development` unless it is named. -/
def environmentFile (env : Environment) : String :=
  "config/" ++ (((env.find? (·.1 == "TACKLE_ENV")).map (·.2)).getD "development") ++ ".yaml"

/-- Loads the configuration from the files of their fixed names, as far as they exist. -/
def load (files : FileTree) (env : Environment) : Except ConfigError Config := do
  let base ← fileLayer files baseFile
  let named ← fileLayer files (environmentFile env)
  ofLayers [base, named, environmentLayer env]

/-- Loads the configuration from one file, which must exist. -/
def loadFrom (files : FileTree) (env : Environment) (path : String) : Except ConfigError Config :=
  if !files.exists? path then .error (.fileNotFound path)
  else do
    let named ← fileLayer files path
    ofLayers [named, environmentLayer env]

end VirtualClock.Config
