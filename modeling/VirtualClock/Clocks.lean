import Std.Data.TreeMap.Lemmas
import VirtualClock.Log
import VirtualClock.Timer

/-!
All clocks of a process: the real-time source, the frozen timelines, and the providers that have
one of them installed. Freezing swaps a fresh timeline in and discards the one that was installed;
the timelines that handles refer to live on.
-/

namespace VirtualClock

/-- How a provider protects the swap of its source. -/
inductive GuardMode where
  | locked
  | lockFree
deriving DecidableEq

namespace GuardMode

/-- The name in settings. -/
def name : GuardMode → String
  | locked => "locked"
  | lockFree => "lock_free"

/-- The guard mode of a name in settings. -/
def ofName? : String → Option GuardMode
  | "locked" => some locked
  | "lock_free" => some lockFree
  | _ => none

/-- The name in descriptions of a provider. -/
def text : GuardMode → String
  | locked => "Locked"
  | lockFree => "LockFree"

end GuardMode

/-- A source of time: the real one, or the frozen timeline of a number. -/
inductive Source where
  | real
  | frozen (timeline : Nat)
deriving DecidableEq

/-- A clock whose source can be swapped. -/
structure Provider where
  guard : GuardMode := .locked
  source : Source := .real
deriving DecidableEq, Inhabited

/-- The clocks of a process, whose events call back `κ`. -/
structure Clocks (κ : Type) where
  real : Timeline κ
  frozen : Std.TreeMap Nat (Timeline κ) := ∅
  lastTimeline : Nat := 0
  providers : Std.TreeMap Nat Provider := ∅
  lastProvider : Nat := 0

namespace Clocks

variable {κ : Type}

/-- The clocks of a process that starts at `origin`. -/
def start (origin : Instant) : Clocks κ := { real := .start origin.reading }

/-- The timeline of a source. -/
def timeline (c : Clocks κ) : Source → Timeline κ
  | .real => c.real
  | .frozen i => c.frozen.getD i default

/-- The clocks with the timeline of a source replaced. -/
def setTimeline (c : Clocks κ) : Source → Timeline κ → Clocks κ
  | .real, t => { c with real := t }
  | .frozen i, t => { c with frozen := c.frozen.insert i t }

theorem timeline_setTimeline (c : Clocks κ) (s : Source) (t : Timeline κ) :
    (c.setTimeline s t).timeline s = t := by
  cases s <;> simp [timeline, setTimeline]

theorem timeline_setTimeline_ne (c : Clocks κ) {s s' : Source} (h : s' ≠ s) (t : Timeline κ) :
    (c.setTimeline s t).timeline s' = c.timeline s' := by
  cases s with
  | real => cases s' <;> simp_all [timeline, setTimeline]
  | frozen i =>
    cases s' with
    | real => rfl
    | frozen j =>
      have : i ≠ j := fun e => h (by rw [e])
      simp [timeline, setTimeline, Std.TreeMap.getD_insert, this]

/-- A frozen timeline at `at_` that is not installed in any provider. -/
def newTimeline (c : Clocks κ) (at_ : Reading) : Source × Clocks κ :=
  let i := c.lastTimeline + 1
  (.frozen i, { c with frozen := c.frozen.insert i (.start at_), lastTimeline := i })

/-- A new provider on the real source. -/
def newProvider (c : Clocks κ) (guard : GuardMode) : Nat × Clocks κ :=
  let p := c.lastProvider + 1
  (p, { c with providers := c.providers.insert p { guard }, lastProvider := p })

/-- A provider by its number. -/
def provider (c : Clocks κ) (p : Nat) : Provider := c.providers.getD p default

/-- The source that is installed in a provider. -/
def source (c : Clocks κ) (p : Nat) : Source := (c.provider p).source

/-- Installs a source in a provider. The result is the source that was installed before. -/
def swap (c : Clocks κ) (p : Nat) (s : Source) : Source × Clocks κ :=
  (c.source p, { c with providers := c.providers.insert p { c.provider p with source := s } })

/-- Abandons whatever is pending on a frozen timeline, and counts it. Nothing happens to the real
source. -/
def discard (c : Clocks κ) : Source → Option Nat × Clocks κ
  | .real => (none, c)
  | .frozen i =>
    let (count, t) := (c.timeline (.frozen i)).discard
    (some count, c.setTimeline (.frozen i) t)

/-- The log event of a freeze that abandoned pending events. -/
def refroze (count : Nat) : LogEvent :=
  ⟨.warn, "tackle_clock::provider", "refreezing discarded pending events",
    [("discarded", toString count)], none⟩

/-- The log event of a freeze. -/
def froze (at_ : String) : LogEvent :=
  ⟨.debug, "tackle_clock::provider", "clock frozen", [("at", at_)], none⟩

/-- The log event of the end of a freeze. -/
def unfroze (count : Nat) : LogEvent :=
  ⟨.debug, "tackle_clock::provider", "clock unfrozen", [("discarded", toString count)], none⟩

/-- Installs a fresh frozen timeline that starts at a reading, and abandons what was pending on the
one it replaces. -/
def freeze (c : Clocks κ) (p : Nat) (r : Reading) : List LogEvent × Clocks κ :=
  let (s, c) := c.newTimeline r
  let (previous, c) := c.swap p s
  let (discarded, c) := c.discard previous
  let warning := if 0 < discarded.getD 0 then [refroze (discarded.getD 0)] else []
  (warning ++ [froze (.ofList r.plain)], c)

/-- Goes back to real time, and abandons what was pending on the frozen timeline. -/
def unfreeze (c : Clocks κ) (p : Nat) : List LogEvent × Clocks κ :=
  let (previous, c) := c.swap p .real
  let (discarded, c) := c.discard previous
  (discarded.toList.map unfroze, c)

/-- Whether a provider is frozen. -/
def isFrozen (c : Clocks κ) (p : Nat) : Bool := c.source p != .real

/-- The number of events pending on a frozen timeline. -/
def pending? (c : Clocks κ) : Source → Option Nat
  | .real => none
  | .frozen i => some (c.timeline (.frozen i)).pending

/-- What describes a source. The instant at which real time started is not told. -/
def sourceText (c : Clocks κ) : Source → String
  | .real => "Real(RealTimeSource \x7b origin: real \x7d)"
  | .frozen i =>
    let t := c.timeline (.frozen i)
    "Frozen(FrozenTimeSource \x7b frozen_at: " ++ .ofList (t.origin.rfc3339 .fewest) ++ ", now: " ++
      .ofList (t.reading.rfc3339 .fewest) ++ ", pending: " ++ toString t.pending ++ " \x7d)"

/-- What describes a provider. -/
def providerText (c : Clocks κ) (p : Nat) : String :=
  "ClockProvider \x7b guard: " ++ (c.provider p).guard.text ++ ", source: " ++
    c.sourceText (c.source p) ++ " \x7d"

end Clocks

end VirtualClock
