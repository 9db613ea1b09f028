import VirtualClock.Text.Rounded
import VirtualClock.Word64

/-!
What is counted on a frozen clock, and the text in which the counts are published: for each count
a line of help, a line with its kind and a line with its value, ordered by name.
-/

namespace VirtualClock

/-- Counts of what happened on a frozen clock. -/
structure Metrics where
  /-- Events that were delivered. -/
  fired : Nat := 0
  /-- Advances that were made. -/
  advances : Nat := 0
  /-- Events that were pending after the last advance, in 64 bits with a sign. -/
  pending : Int := 0
deriving DecidableEq, Inhabited

namespace Metrics

/-- Counts a delivered event. -/
def countFiring (m : Metrics) : Metrics := { m with fired := m.fired + 1 }

/-- Counts an advance that left `pending` events. -/
def recordAdvance (m : Metrics) (pending : Nat) : Metrics :=
  { m with advances := m.advances + 1, pending := Int.bmod pending Word64.count }

/-- A published value: a counter only grows, a gauge may go up and down. -/
structure Sample where
  name : String
  help : String
  isCounter : Bool
  value : Int

/-- The lines of a published value. -/
def Sample.lines (s : Sample) : List String :=
  ["# HELP " ++ s.name ++ " " ++ s.help,
   "# TYPE " ++ s.name ++ (if s.isCounter then " counter" else " gauge"),
   s.name ++ " " ++ .ofList (Text.rounded s.value)]

/-- The published values, ordered by name. -/
def samples (m : Metrics) : List Sample :=
  [⟨"tackle_clock_advances_total", "Calls to advance the frozen clock", true, m.advances⟩,
   ⟨"tackle_clock_events_fired_total", "Timers and ticks delivered on the frozen timeline", true,
    m.fired⟩,
   ⟨"tackle_clock_pending_events", "Events still queued after the last advance", false, m.pending⟩]

/-- The published lines. -/
def lines (m : Metrics) : List String := m.samples.flatMap Sample.lines

/-- The published text. -/
def text (m : Metrics) : String := String.join (m.lines.map (· ++ "\n"))

end Metrics

end VirtualClock
