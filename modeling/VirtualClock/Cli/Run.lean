import VirtualClock.Cli.Args
import VirtualClock.Config.Load
import VirtualClock.LogFilter.Pattern
import VirtualClock.Replay
import VirtualClock.Scenario.File

/-!
A run of the program: the arguments are read, then the configuration, then the log filter; the clock
of the process is made, and the command is performed on it. What a run prints and what it logs come
out in one order, and only the events that the filter lets pass are logged.
-/

namespace VirtualClock.Cli

/-- What a run finds when it starts. -/
structure Surroundings where
  files : FileTree := {}
  environment : Config.Environment := []
  /-- The real time. -/
  now : Instant

/-- What comes out on standard output. -/
inductive Printed where
  | text (line : String)
  | logged (event : LogEvent)
deriving DecidableEq

/-- What a run leaves behind. -/
structure Outcome where
  /-- The exit code. -/
  code : Nat
  printed : List Printed := []
  /-- The lines that report an error. -/
  errors : List String := []
deriving DecidableEq

namespace Outcome

/-- The texts among what was printed. -/
def texts (o : Outcome) : List String :=
  o.printed.filterMap fun
    | .text line => some line
    | .logged _ => none

/-- The events among what was printed. -/
def events (o : Outcome) : List LogEvent :=
  o.printed.filterMap fun
    | .text _ => none
    | .logged event => some event

/-- A run that ended in a panic before anything was printed. -/
def panicked : Outcome := { code := 101 }

/-- A run that ended in an error, which is reported behind `Error: `. -/
def failed (printed : List Printed) (message : String) : Outcome :=
  { code := 1, printed, errors := ("Error: " ++ message).splitOn "\n" }

/-- What is left of a run when a filter stands before the log. -/
def filtered (filter : LogFilter) (o : Outcome) : Outcome :=
  { o with printed := o.printed.filter fun
      | .text _ => true
      | .logged event => filter.passes event }

end Outcome

/-- A run whose arguments ask for no command. Help and version are no errors when they are asked
for. -/
def UsageError.outcome : UsageError → Outcome
  | displayHelp scope => { code := 0, printed := (Help.lines scope).map .text }
  | displayVersion => { code := 0, printed := [.text Help.version] }
  | nothingGiven => { code := 2, errors := Help.lines .program }
  | e => { code := 2, errors := ["error: " ++ e.kind] }

/-- The variable whose filter wins over the one of the configuration. -/
def filterVariable : String := "RUST_LOG"

/-- The log filter of a run. A malformed filter in the environment does not count. -/
def logFilter (env : Config.Environment) (c : Config) : Except LogFilter.Fault LogFilter :=
  match env.find? (·.1 == filterVariable) with
  | none => LogFilter.ofStringLossy c.telemetry.logFilter
  | some (_, text) =>
    match LogFilter.ofString text with
    | .error .malformed => LogFilter.ofStringLossy c.telemetry.logFilter
    | other => other

/-- The configuration of a run: of the file that is asked for, or of the files of fixed names. -/
def Surroundings.config (w : Surroundings) : Option String → Except ConfigError Config
  | some path => Config.loadFrom w.files w.environment path
  | none => Config.load w.files w.environment

/-- The log event of a configured clock. -/
def configured (guard : GuardMode) : LogEvent :=
  ⟨.info, "tackle_clock::global", "global clock configured", [("mode", guard.text)], none⟩

/-- The log event of a loaded scenario. -/
def replaying (path : String) (s : Scenario) : LogEvent :=
  ⟨.info, "tackle::commands", "replaying scenario",
    [("scenario", path), ("timers", toString s.timers.length)], none⟩

/-- Replays a scenario on the provider `p`, waits at most `wait` milliseconds for its timers, and
prints the firing log. -/
def replayScenario (fuel wait : Nat) (clocks : Clocks Nat) (p : Nat) (showMetrics : Bool)
    (s : Scenario) : Outcome :=
  match (Replay.runWithin wait fuel p s).run { clocks, metrics := some {} } with
  | (outcome, r) =>
    let logged := r.logs.reverse.map .logged
    match outcome with
    | .error _ => { Outcome.panicked with printed := logged }
    | .ok (.error e) => .failed logged e.message
    | .ok (.ok fired) =>
      let metrics := if showMetrics then (r.metrics.map (·.lines)).getD [] else []
      { code := 0, printed := logged ++ ((fired.map (·.text)) ++ metrics).map .text }

/-- Performs a command on the provider `p`. -/
def Command.perform (fuel : Nat) (w : Surroundings) (c : Config) (clocks : Clocks Nat) (p : Nat) :
    Command → Outcome
  | .replay path metrics =>
    match Scenario.load w.files path with
    | .error e => .failed [] e.line
    | .ok s =>
      let o := replayScenario fuel c.clock.waitTimeout clocks p (metrics || c.telemetry.metrics) s
      { o with printed := .logged (replaying path s) :: o.printed }
  | .now none => { code := 0, printed := [.text (.ofList (w.now.reading.rfc3339 .nine))] }
  | .now (some at_) =>
    let (freezing, clocks) := clocks.freeze p at_
    let shown := (clocks.timeline (clocks.source p)).reading
    let (unfreezing, _) := clocks.unfreeze p
    { code := 0, printed := freezing.map .logged ++ [.text (.ofList (shown.rfc3339 .nine))] ++
        unfreezing.map .logged }

/-- Runs the program. No advance of a scenario fires more than `fuel` events. -/
def run (fuel : Nat) (w : Surroundings) (args : List String) : Outcome :=
  match parse args with
  | .error e => e.outcome
  | .ok invocation =>
    match w.config invocation.config with
    | .error .splitsCharacter => .panicked
    | .error e => .failed [] ("\n".intercalate e.lines)
    | .ok c =>
      match logFilter w.environment c with
      | .error _ => .panicked
      | .ok filter =>
        let (p, clocks) := (Clocks.start w.now).newProvider c.clock.guard
        let o := invocation.command.perform fuel w c clocks p
        { o with printed := .logged (configured c.clock.guard) :: o.printed }.filtered filter

end VirtualClock.Cli
