import VirtualClock.Advance
import VirtualClock.Clocks
import VirtualClock.Metrics
import VirtualClock.Scenario

/-!
Replaying a scenario. The clock is frozen at the epoch of the scenario, every timer is scheduled,
every advance is made, and the clock is unfrozen again. A timer with a period arms itself again in
its callback. All advances are checked before the clock is touched, and a timer is checked when it
is scheduled. Before the first advance all timers are pending, so that a replay need not wait for
them; one that does looks for them on the clock, which nobody else uses.
-/

namespace VirtualClock

/-- A line of the firing log. -/
structure Fired where
  /-- Whole milliseconds since the epoch. -/
  elapsed : Int
  name : String
deriving DecidableEq

/-- A firing as it is printed. -/
def Fired.text (f : Fired) : String := "+" ++ toString f.elapsed ++ "ms " ++ f.name

/-- Why a scenario cannot be replayed. -/
inductive ReplayError where
  | invalidAdvance (ms : Nat)
  | outOfRange (name field : String) (ms : Int)
  | timer (name : String) (error : ClockError)
  | notScheduled (scheduled expected : Nat)
deriving DecidableEq

namespace ReplayError

/-- The kind of an error. -/
def kind : ReplayError → String
  | invalidAdvance _ => "InvalidAdvance"
  | outOfRange .. => "OutOfRange"
  | timer .. => "Timer"
  | notScheduled .. => "NotScheduled"

/-- What is reported of an error. -/
def message : ReplayError → String
  | invalidAdvance ms => "advance of " ++ toString ms ++ "ms is out of range"
  | outOfRange name field ms =>
    "timer `" ++ name ++ "`: " ++ field ++ " of " ++ toString ms ++ "ms is out of range"
  | timer name e => "timer `" ++ name ++ "`: " ++ e.message
  | notScheduled scheduled expected =>
    "only " ++ toString scheduled ++ " of " ++ toString expected ++ " timers were scheduled"

end ReplayError

/-- The delay of a field of a timer. -/
def TimerSpec.delay (t : TimerSpec) (field : String) (ms : Int) : Except ReplayError Delay :=
  match Delay.ofMillis? ms with
  | some d => .ok d
  | none => .error (.outOfRange t.name field ms)

/-- The delay after which a timer fires, and its period, which must be positive. -/
def TimerSpec.delays (t : TimerSpec) : Except ReplayError (Delay × Option Delay) := do
  let after ← t.delay "after_ms" t.after
  match t.period with
  | none => return (after, none)
  | some ms =>
    let period ← t.delay "repeat_ms" ms
    if period.nanos ≤ 0 then throw (.timer t.name (.nonPositiveInterval period))
    return (after, some period)

/-- The delays of the advances. -/
def Scenario.steps (s : Scenario) : Except ReplayError (List Delay) :=
  s.advances.mapM fun (ms : Nat) =>
    match Delay.ofMillis? ms with
    | some d => .ok d
    | none => .error (.invalidAdvance ms)

/-- What is wrong with a timer: the range of its delay is looked at first, then that of its period,
and then the sign of the period. -/
def TimerSpec.fault? (t : TimerSpec) : Option ReplayError :=
  if 9223372036854775807 < t.after.natAbs then some (.outOfRange t.name "after_ms" t.after)
  else
    t.period.bind fun p =>
      if 9223372036854775807 < p.natAbs then some (.outOfRange t.name "repeat_ms" p)
      else if p ≤ 0 then some (.timer t.name (.nonPositiveInterval ⟨p * 1000000⟩))
      else none

/-- What is wrong with an advance. -/
def advanceFault? (ms : Nat) : Option ReplayError :=
  if 9223372036854775807 < ms then some (.invalidAdvance ms) else none

/-- What is wrong with a scenario: the first advance that is out of range, or else the first timer
that cannot be scheduled. -/
def Scenario.fault? (s : Scenario) : Option ReplayError :=
  (s.advances.findSome? advanceFault?).or (s.timers.findSome? TimerSpec.fault?)

/-- What a replay acts on. Its callbacks are the positions of timers in the scenario. -/
structure Replay where
  clocks : Clocks Nat
  metrics : Option Metrics := none
  /-- The firing log, latest first. -/
  fired : List Fired := []
  /-- Log events, latest first. -/
  logs : List LogEvent := []

namespace Replay

/-- A scheduled timer. -/
structure Armed where
  id : Nat
  name : String
  period : Option Delay

/-- Appends to the log. -/
def record (e : LogEvent) (r : Replay) : Replay := { r with logs := e :: r.logs }

/-- Replaces the timeline of a source. -/
def update (q : Source) (t : Timeline Nat) (r : Replay) : Replay :=
  { r with clocks := r.clocks.setTimeline q t }

/-- Replaces the clocks and appends to the log. -/
def commit (r : Replay) (c : List LogEvent × Clocks Nat) : Replay :=
  { r with clocks := c.2, logs := c.1.reverse ++ r.logs }

/-- The timeline of a source in a replay from `epoch`. -/
def site (q : Source) (epoch : Reading) : Site Replay Nat where
  timeline r := r.clocks.timeline q
  update := update q
  record := record
  stamp t := .ofList (epoch.carry t).plain
  timeline_update t r := r.clocks.timeline_setTimeline q t
  timeline_record _ _ := rfl

/-- The time that a clock shows to have passed since the epoch. -/
def elapsed (q : Source) (epoch : Reading) (r : Replay) : Delay :=
  (epoch.carry (r.clocks.timeline q).now).since epoch

/-- The log event of a firing. -/
def noticed (f : Fired) : LogEvent :=
  ⟨.info, "tackle_telemetry::logging", "timer fired", [("elapsed_ms", toString f.elapsed)],
    some ⟨.info, "tackle_telemetry::logging", "clock_event", [("timer", f.name)]⟩⟩

/-- The log event of an advance. -/
def stepped (step elapsed : Delay) : LogEvent :=
  ⟨.debug, "tackle::scenario", "advanced",
    [("step_ms", toString step.toMillis), ("elapsed_ms", toString elapsed.toMillis)], none⟩

/-- Schedules the timer at position `k` of a scenario. -/
def arm (q : Source) (k : Nat) (spec : TimerSpec) : ExceptT ReplayError (StateM Replay) Armed := do
  let (after, period) ← spec.delays
  let r ← get
  let (id, t) := (r.clocks.timeline q).startTimer after (.callback k)
  set (r.update q t)
  return ⟨id, spec.name, period⟩

/-- Schedules the timers of a scenario, up to the first that cannot be. -/
def schedule (q : Source) (specs : List TimerSpec) :
    ExceptT ReplayError (StateM Replay) (List Armed) :=
  specs.zipIdx.mapM fun (spec, k) => arm q k spec

/-- The callback of a timer: it logs the firing, counts it, and arms the timer again if it has a
period. -/
def fire (q : Source) (epoch : Reading) (timers : List Armed) (k : Nat) (r : Replay) : Replay :=
  match timers[k]? with
  | none => r
  | some t =>
    let f : Fired := ⟨(r.elapsed q epoch).toMillis, t.name⟩
    let r := r.record (noticed f)
    let r := { r with fired := f :: r.fired, metrics := r.metrics.map (·.countFiring) }
    match t.period with
    | none => r
    | some d => r.update q ((r.clocks.timeline q).resetTimer t.id d (.callback k)).2

/-- Makes the advances, one after another. -/
def advances (fuel : Nat) (q : Source) (epoch : Reading) (timers : List Armed) :
    List Delay → Act Replay Unit
  | [] => return
  | d :: rest => do
    let _ ← (site q epoch).advance (fun k => modify (fire q epoch timers k)) fuel d
    modify fun r =>
      let r := r.record (stepped d (r.elapsed q epoch))
      { r with metrics := r.metrics.map (·.recordAdvance (r.clocks.timeline q).pending) }
    advances fuel q epoch timers rest

/-- What happens while the clock is frozen. All timers are pending at once before the first
advance. -/
def frozen (fuel : Nat) (q : Source) (scenario : Scenario) (steps : List Delay) :
    Act Replay (Except ReplayError (List Fired)) := do
  match ← ExceptT.lift (schedule q scenario.timers).run with
  | .error e => return .error e
  | .ok timers =>
    let scheduled := ((← get).clocks.timeline q).pending
    if scheduled < timers.length then return .error (.notScheduled scheduled timers.length)
    advances fuel q scenario.epoch timers steps
    return .ok (← get).fired.reverse

/-- Replays a scenario on the provider `p`. No advance fires more than `fuel` events. -/
def run (fuel p : Nat) (scenario : Scenario) : Act Replay (Except ReplayError (List Fired)) := do
  match scenario.steps with
  | .error e => return .error e
  | .ok steps =>
    modify fun r => { r with fired := [] }.commit (r.clocks.freeze p scenario.epoch)
    let outcome ← frozen fuel ((← get).clocks.source p) scenario steps
    modify fun r => r.commit (r.clocks.unfreeze p)
    return outcome

/-- Waits for `count` events on a clock that nobody else uses, at most for `wait` milliseconds of
real time. A caller that has to register is notified by nobody and withdraws when its time is
over. -/
def awaitPending (q : Source) (count wait : Nat) : Act Replay Bool := fun r =>
  let t := r.clocks.timeline q
  if wait = 0 then (.ok (count ≤ t.pending), r)
  else
    match t.register count with
    | none => (.ok true, r)
    | some (waiter, t) => (.ok (t.queue.wasNotified waiter), r.update q (t.cancel waiter))

/-- What happens while the clock is frozen, with a wait for the timers before the first advance. -/
def frozenWithin (wait fuel : Nat) (q : Source) (scenario : Scenario) (steps : List Delay) :
    Act Replay (Except ReplayError (List Fired)) := do
  match ← ExceptT.lift (schedule q scenario.timers).run with
  | .error e => return .error e
  | .ok timers =>
    if !(← awaitPending q timers.length wait) then
      return .error (.notScheduled ((← get).clocks.timeline q).pending timers.length)
    advances fuel q scenario.epoch timers steps
    return .ok (← get).fired.reverse

/-- Replays a scenario on the provider `p`, and waits at most `wait` milliseconds for its timers. -/
def runWithin (wait fuel p : Nat) (scenario : Scenario) :
    Act Replay (Except ReplayError (List Fired)) := do
  match scenario.steps with
  | .error e => return .error e
  | .ok steps =>
    modify fun r => { r with fired := [] }.commit (r.clocks.freeze p scenario.epoch)
    let outcome ← frozenWithin wait fuel ((← get).clocks.source p) scenario steps
    modify fun r => r.commit (r.clocks.unfreeze p)
    return outcome

end Replay

end VirtualClock
