import VirtualClock.Advance
import VirtualClock.Calendar
import VirtualClock.Cli.Args
import VirtualClock.Cli.Run
import VirtualClock.Cli.Usage
import VirtualClock.Clocks
import VirtualClock.Config
import VirtualClock.Config.Inline
import VirtualClock.Config.Load
import VirtualClock.Config.Value
import VirtualClock.Config.Yaml
import VirtualClock.Event
import VirtualClock.Files
import VirtualClock.Instant
import VirtualClock.Json
import VirtualClock.Json.Parser
import VirtualClock.Log
import VirtualClock.LogFilter
import VirtualClock.LogFilter.Directive
import VirtualClock.LogFilter.Pattern
import VirtualClock.Main
import VirtualClock.Metrics
import VirtualClock.Queue
import VirtualClock.Reading
import VirtualClock.Reading.Parser
import VirtualClock.Replay
import VirtualClock.Scenario
import VirtualClock.Scenario.File
import VirtualClock.Scenario.Json
import VirtualClock.Scenario.Yaml
import VirtualClock.Script.Run
import VirtualClock.Script.Session
import VirtualClock.Script.Step
import VirtualClock.Text.Alphanumeric
import VirtualClock.Text.Blank
import VirtualClock.Text.Digits
import VirtualClock.Text.Rounded
import VirtualClock.Timeline
import VirtualClock.Timer
import VirtualClock.Word64
import VirtualClock.Yaml.Cursor
import VirtualClock.Yaml.Lexer
import VirtualClock.Yaml.Node
import VirtualClock.Yaml.Parser
import VirtualClock.Yaml.Plain
import VirtualClock.Yaml.Scalar
import VirtualClock.Yaml.Tag
import VirtualClock.Yaml.Token
import VirtualClock.Proofs.Queue
import VirtualClock.Proofs.Timeline.Moves
import VirtualClock.Proofs.Timeline.Account
import VirtualClock.Proofs.Timeline.Order
import VirtualClock.Proofs.Timeline.Solo
import VirtualClock.Proofs.Conduct
import VirtualClock.Proofs.Advance
import VirtualClock.Proofs.Schedule
import VirtualClock.Proofs.Replay.Timers
import VirtualClock.Proofs.Replay.Log
import VirtualClock.Proofs.Queue.Agenda
import VirtualClock.Proofs.Firings
import VirtualClock.Proofs.Split
import VirtualClock.Proofs.Replay.Returns
import VirtualClock.Proofs.Process
import VirtualClock.Proofs.Process.Base
import VirtualClock.Proofs.Process.Replaced
import VirtualClock.Proofs.Process.Abandon
import VirtualClock.Proofs.Script.Session
import VirtualClock.Proofs.Script.Run
import VirtualClock.Proofs.Script.Wait
import VirtualClock.Proofs.Timeline.Channels
import VirtualClock.Proofs.Script.Sleep
import VirtualClock.Proofs.Timeline.Overdue
import VirtualClock.Proofs.Process.Sleepers
import VirtualClock.Proofs.Process.Joined
import VirtualClock.Proofs.Replay.Faults
import VirtualClock.Proofs.Replay.Counts
import VirtualClock.Proofs.Text.Pieces
import VirtualClock.Proofs.Config.Merge
import VirtualClock.Proofs.Config.Sources
import VirtualClock.Proofs.Config.Layers
import VirtualClock.Proofs.Script.Brief
import VirtualClock.Proofs.Script.Crew
import VirtualClock.Proofs.Script.Beside
import VirtualClock.Proofs.Script.Apart
import VirtualClock.Proofs.Script.Sections
import VirtualClock.Proofs.Script.Prompt
import VirtualClock.Proofs.Timeline.Ticks
import VirtualClock.Proofs.Sweep
import VirtualClock.Proofs.Timeline.Spared
import VirtualClock.Proofs.Sparing
import VirtualClock.Proofs.Cadence
import VirtualClock.Proofs.LastInstant
import VirtualClock.Proofs.Timeline.Interrupted
import VirtualClock.Proofs.Resume
import VirtualClock.Proofs.Calendar
import VirtualClock.Proofs.Text.Digits
import VirtualClock.Proofs.Reading
import VirtualClock.Proofs.Json
import VirtualClock.Proofs.Scenario.Json
import VirtualClock.Proofs.LogFilter.Cuts
import VirtualClock.Proofs.Config.Check
import VirtualClock.Proofs.Queue.Consistency
import VirtualClock.Proofs.Timeline.Receipts
