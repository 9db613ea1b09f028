import VirtualClock.Clocks
import VirtualClock.Config.Value
import VirtualClock.LogFilter

/-!
The configuration: how clocks are guarded, how long to wait for timers, what is logged, and whether
metrics are printed. A configuration is read from settings, in which any field may be missing, and
then checked.
-/

namespace VirtualClock

/-- How clocks behave. -/
structure ClockConfig where
  guard : GuardMode := .locked
  /-- Milliseconds of real time to wait until timers are scheduled. -/
  waitTimeout : Nat := 1000
deriving DecidableEq, Inhabited

/-- What is told of a run. -/
structure TelemetryConfig where
  logFilter : String := "info"
  metrics : Bool := false
deriving DecidableEq, Inhabited

/-- The configuration. -/
structure Config where
  clock : ClockConfig := {}
  telemetry : TelemetryConfig := {}
deriving DecidableEq, Inhabited

namespace Config

/-- The guard mode of a setting: a name, or a table that starts with one that has no value. -/
def guard? : Value → Option GuardMode
  | .str s => GuardMode.ofName? s
  | .table entries =>
    match Value.first? entries with
    | some (name, .null) => GuardMode.ofName? name
    | _ => none
  | _ => none

/-- What `f` reads from a field, or its default. -/
def field? {α : Type} (fallback : α) (f : Value → Option α) : Option Value → Option α
  | none => some fallback
  | some v => f v

/-- The clock settings of a value. -/
def clock? (v : Value) : Option ClockConfig := do
  match ← v.fields? ["guard", "wait_timeout_ms"] with
  | [guard, waitTimeout] =>
    some ⟨← field? .locked guard? guard, ← field? 1000 Value.unsigned64? waitTimeout⟩
  | _ => none

/-- The telemetry settings of a value. -/
def telemetry? (v : Value) : Option TelemetryConfig := do
  match ← v.fields? ["log_filter", "metrics"] with
  | [logFilter, metrics] =>
    some ⟨← field? "info" Value.str? logFilter, ← field? false Value.bool? metrics⟩
  | _ => none

/-- The configuration that settings denote. -/
def ofEntries? (entries : List (String × Value)) : Option Config := do
  some ⟨← field? {} clock? (Value.lookup "clock" entries),
    ← field? {} telemetry? (Value.lookup "telemetry" entries)⟩

/-- A configuration as settings. -/
def toEntries (c : Config) : List (String × Value) :=
  [("clock", .table [("guard", .str c.clock.guard.name),
      ("wait_timeout_ms", .int c.clock.waitTimeout)]),
    ("telemetry", .table [("log_filter", .str c.telemetry.logFilter),
      ("metrics", .bool c.telemetry.metrics)])]

/-- What can be wrong with a configuration. -/
inductive Problem where
  /-- The time to wait is not from 1 millisecond to ten minutes. -/
  | waitTimeout
  | emptyLogFilter
  | malformedLogFilter
deriving DecidableEq

/-- The line that reports a problem. -/
def Problem.line : Problem → String
  | waitTimeout => "  - clock.wait_timeout_ms: range"
  | emptyLogFilter => "  - telemetry.log_filter: empty_log_filter"
  | malformedLogFilter => "  - telemetry.log_filter: invalid_log_filter"

section Problems

variable [LogFilter.PatternEngine]

/-- What is wrong with a log filter, if it can be read to its end or to the first fault. -/
def logFilterProblems (text : String) : Except LogFilter.Fault (List Problem) :=
  if (Text.trim text.toList).isEmpty then .ok [.emptyLogFilter]
  else
    match LogFilter.ofString text with
    | .ok _ => .ok []
    | .error .malformed => .ok [.malformedLogFilter]
    | .error .splitsCharacter => .error .splitsCharacter

/-- What is wrong with a configuration, in the order of the lines that report it. -/
def problems (c : Config) : Except LogFilter.Fault (List Problem) := do
  let filter ← logFilterProblems c.telemetry.logFilter
  let wait := if 1 ≤ c.clock.waitTimeout ∧ c.clock.waitTimeout ≤ 600000 then [] else [.waitTimeout]
  return wait ++ filter

end Problems

end Config

/-- Why there is no configuration. -/
inductive ConfigError where
  | fileNotFound (path : String)
  | parsing
  | validation (problems : List Config.Problem)
  /-- A part of the log filter starts or ends within a character. -/
  | splitsCharacter
deriving DecidableEq

namespace ConfigError

/-- The lines that report an error, but for what the parser of a format has to say. -/
def lines : ConfigError → List String
  | fileNotFound path => ["Configuration file not found: " ++ path]
  | parsing => ["Configuration parsing error:"]
  | validation problems => "Invalid configuration:" :: problems.map (·.line)
  | splitsCharacter => []

end ConfigError

namespace Config

/-- A configuration without problems. -/
def check [LogFilter.PatternEngine] (c : Config) : Except ConfigError Config :=
  match c.problems with
  | .error _ => .error .splitsCharacter
  | .ok [] => .ok c
  | .ok problems => .error (.validation problems)

end Config

end VirtualClock
