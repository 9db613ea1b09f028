import Std.Time.DateTime.Timestamp
import VirtualClock.Cli.Run

/-!
The program on a real machine: it looks up the real time, the environment variables and the files
that a run may read, and prints what the run leaves behind.
-/

namespace VirtualClock.Cli

/-- The environment variables, if they are text. -/
def environment : IO Config.Environment := do
  let bytes ← try IO.FS.readBinFile "/proc/self/environ" catch _ => pure .empty
  let text := (String.fromUTF8? bytes).getD ""
  return (text.splitOn "\x00").filterMap fun setting =>
    let name := setting.toList.takeWhile (· != '=')
    if name.isEmpty then none
    else some (.ofList name, .ofList (setting.toList.drop (name.length + 1)))

/-- The parts of a path that lead on the way to its end, and the path itself. -/
def stages (path : String) : List String :=
  let names := FileTree.names path
  (List.range names.length).map fun k => "/".intercalate (names.take (k + 1))

/-- Adds what a path leads to, and the directories on its way. -/
def survey (tree : FileTree) (path : String) : IO FileTree :=
  (stages path).foldlM (fun tree stage => do
    if stage == "" then return tree
    try
      let real ← IO.FS.realPath stage
      if ← real.isDir then return tree.addDirectory stage
      let bytes ← try pure (String.fromUTF8? (← IO.FS.readBinFile real)) catch _ => pure none
      return tree.addFile stage bytes
    catch _ => return tree) tree

/-- The paths of the files that a run may read. -/
def paths (env : Config.Environment) (args : List String) : List String :=
  match parse args with
  | .error _ => []
  | .ok invocation =>
    (match invocation.config with
      | some path => [path]
      | none => [Config.baseFile, Config.environmentFile env]) ++
    (match invocation.command with
      | .replay scenario _ => [scenario]
      | .now _ => [])

/-- What a run finds on this machine. -/
def surroundings (args : List String) : IO Surroundings := do
  let nanos : Int := (← Std.Time.Timestamp.now).toNanosecondsSinceUnixEpoch.val
  let environment ← environment
  let base := FileTree.place {} (← IO.currentDir).toString
  let files ← (paths environment args).foldlM survey { base }
  return { files, environment, now := (Instant.ofNanos? nanos).getD default }

/-- A log event as a line. -/
def logLine (now : Instant) (e : LogEvent) : String :=
  " ".intercalate <| [.ofList (now.reading.rfc3339 .nine), e.level.name] ++
    (e.span.map (·.text ++ ":")).toList ++ [e.target ++ ":", e.message] ++
    e.fields.map fun (name, value) => name ++ "=" ++ value

end VirtualClock.Cli

open VirtualClock.Cli

/-- Runs the program. -/
def main (args : List String) : IO UInt32 := do
  let found ← surroundings args
  let outcome := run 1000000000 found args
  for printed in outcome.printed do
    match printed with
    | .text line => IO.println line
    | .logged event => IO.println (logLine found.now event)
  for line in outcome.errors do
    IO.eprintln line
  return .ofNat outcome.code
