import VirtualClock.Files
import VirtualClock.Scenario.Yaml

/-!
Loading a scenario from a file.
-/

namespace VirtualClock.Scenario

/-- Why a scenario cannot be loaded. -/
inductive LoadError where
  | fileNotFound (path : String)
  /-- The file cannot be read as text. -/
  | io
  | malformed
deriving DecidableEq

/-- The line that reports an error, but for what the parser of a format has to say. -/
def LoadError.line : LoadError → String
  | fileNotFound path => "Scenario file not found: " ++ path ++ " does not exist"
  | io => "I/O error:"
  | malformed => "Deserialization error:"

/-- Loads a scenario from the file that a path leads to. -/
def load (files : FileTree) (path : String) : Except LoadError Scenario :=
  if !files.exists? path then .error (.fileNotFound path)
  else
    match files.read? path with
    | some (some text) =>
      match ofYaml? text with
      | some s => .ok s
      | none => .error .malformed
    | _ => .error .io

end VirtualClock.Scenario
