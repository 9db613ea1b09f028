import VirtualClock.Advance
import VirtualClock.Script.Step

/-!
The state of a running script: the clocks, what its names stand for, and what is to be reported.
Real time is a timeline too. It stands still while a step runs and moves when a step blocks, from
one event to the next; its events are delivered at the instant they are noticed.
-/

namespace VirtualClock.Script

/-- What a step acts on: a provider by its number, or a source. -/
inductive Target where
  | provider (p : Nat)
  | source (s : Source)
deriving DecidableEq

/-- A thread that blocks on a clock. -/
inductive Thread where
  /-- Sleeps on a frozen timeline until the channel of an event is ready. -/
  | asleep (source : Source) (event : Nat)
  /-- Sleeps until an instant of real time. -/
  | asleepUntil (wake : Instant)
  /-- Waits for pending events, until an instant of real time. -/
  | counting (source : Source) (waiter : Nat) (giveUp : Instant)
  | ended (result : Joined)
deriving DecidableEq

/-- What a script keeps under a name. -/
inductive Handle where
  | timer (source : Source) (id : Nat) (deliver : Delivery Nat)
  | ticker (source : Source) (id : Nat)
  /-- A channel without a handle that could stop its timer. -/
  | channel (source : Source) (id : Nat)
  | thread (thread : Thread)
deriving DecidableEq

/-- A callback: its name, the clock it belongs to, the steps it runs, and how often it still runs
them. -/
structure Callback where
  name : String
  target : Target
  steps : List Step
  runs : Nat

/-- The state of a running script. Callbacks are known by number. -/
structure Session where
  clocks : Clocks Nat
  targets : List (String × Target)
  handles : List (String × Handle) := []
  callbacks : Std.TreeMap Nat Callback := ∅
  lastCallback : Nat := 0
  /-- Callbacks run so far. -/
  calls : Nat := 0
  /-- Entries since the last report, latest first. -/
  entries : List (Entry Report) := []
  /-- Log events since the last report, latest first. -/
  logs : List LogEvent := []

namespace Session

/-- A session with the providers `main` and `global` on real time, which is at `origin`. -/
def start (origin : Instant) (guard : GuardMode) : Session :=
  let (main, clocks) := (Clocks.start origin).newProvider guard
  let (shared, clocks) := clocks.newProvider .locked
  { clocks, targets := [("main", .provider main), ("global", .provider shared)] }

/-- The source that a target stands for now. -/
def sourceOf (s : Session) : Target → Source
  | .provider p => s.clocks.source p
  | .source q => q

/-- The instant on a source. -/
def instant (s : Session) (q : Source) : Instant := (s.clocks.timeline q).now

/-- What is kept under a name, and what was named later hides what was named before. -/
def lookup {α : Type} (name : String) (entries : List (String × α)) : Option α :=
  (entries.find? (·.1 == name)).map (·.2)

/-- Keeps a handle under a name, in place of the one that was kept there. -/
def keep (s : Session) (name : String) (h : Handle) : Session :=
  { s with handles := (name, h) :: s.handles.filter (·.1 != name) }

/-- Makes a name stand for a target. -/
def aim (s : Session) (name : String) (t : Target) : Session :=
  { s with targets := (name, t) :: s.targets.filter (·.1 != name) }

/-- Replaces the timeline of a source. -/
def update (q : Source) (t : Timeline Nat) (s : Session) : Session :=
  { s with clocks := s.clocks.setTimeline q t }

/-- Appends to the log. -/
def record (e : LogEvent) (s : Session) : Session := { s with logs := e :: s.logs }

/-- Replaces the clocks and appends to the log. -/
def commit (s : Session) (r : List LogEvent × Clocks Nat) : Session :=
  { s with clocks := r.2, logs := r.1.reverse ++ s.logs }

/-- The timeline of a source in a session. -/
def site (q : Source) : Site Session Nat where
  timeline s := s.clocks.timeline q
  update t s := s.update q t
  record := record
  stamp := Instant.plain
  timeline_update t s := s.clocks.timeline_setTimeline q t
  timeline_record _ _ := rfl

/-- Adds a callback. -/
def addCallback (s : Session) (c : Callback) : Nat × Session :=
  let k := s.lastCallback + 1
  (k, { s with callbacks := s.callbacks.insert k c, lastCallback := k })

/-- The result of a thread that has ended. -/
def result? (s : Session) : Thread → Option Joined
  | .asleep q event => if (s.clocks.timeline q).isReady event false then some .awake else none
  | .asleepUntil wake => if wake ≤ s.clocks.real.now then some .awake else none
  | .counting q waiter _ =>
    let queue := (s.clocks.timeline q).queue
    if queue.wasNotified waiter then some (.counted true)
    else if queue.isWaiting waiter then none
    else some (.counted false)
  | .ended r => some r

/-- The instant of real time at which a thread ends if nothing else ends it. -/
def horizon? : Thread → Option Instant
  | .asleepUntil wake => some wake
  | .counting _ _ giveUp => some giveUp
  | _ => none

/-- Lets the threads give up whose time is over. -/
def giveUp (s : Session) : Session :=
  let one (s : Session) (h : String × Handle) : Session :=
    match h.2 with
    | .thread (.counting q waiter giveUp) =>
      if giveUp ≤ s.clocks.real.now then s.update q ((s.clocks.timeline q).cancel waiter) else s
    | _ => s
  s.handles.foldl one s

/-- Moves real time to `t`, if it is not there yet. -/
def moveTo (s : Session) (t : Instant) : Session :=
  (s.update .real (s.clocks.real.settle t)).giveUp

/-- Delivers what is due in real time, at the instant of real time. Callbacks run in threads of
their own, which log elsewhere and whose panics end with them. -/
def deliverReal (call : Nat → Act Session Unit) : (fuel : Nat) → Act Session Unit
  | 0 => fun s => (.error .outOfFuel, s)
  | fuel + 1 => fun s =>
    match s.clocks.real.popDue s.clocks.real.now with
    | none => (.ok (), s)
    | some (f, t) =>
      let aside (k : Nat) : Act Session Unit := fun s =>
        match call k s with
        | (.error .outOfFuel, s') => (.error .outOfFuel, s')
        | (_, s') => (.ok (), { s' with logs := s.logs })
      match (site .real).deliver aside f t.now (s.update .real t) with
      | (.error stop, s) => (.error stop, s)
      | (.ok _, s) => deliverReal call fuel s

/-- Blocks until `ready` holds or real time is at `limit`; without a limit, until nothing is left
that could happen. The result says whether `ready` holds. -/
def block (call : Nat → Act Session Unit) (ready : Session → Bool) (limit : Option Instant) :
    (fuel : Nat) → Act Session Bool
  | 0 => fun s => (.error .outOfFuel, s)
  | fuel + 1 => fun s =>
    if ready s then (.ok true, s)
    else
      let next := s.clocks.real.queue.nextDeadline.filter fun t => limit.all (t ≤ ·)
      match next with
      | some t =>
        match deliverReal call fuel (s.moveTo t) with
        | (.error stop, s) => (.error stop, s)
        | (.ok _, s) => block call ready limit fuel s
      | none =>
        match limit with
        | none => (.ok false, s)
        | some t =>
          let s := s.moveTo t
          (.ok (ready s), s)

/-- The entries and the log since the last report, which are then forgotten. -/
def drain (s : Session) : (List (Entry Report) × List LogEvent) × Session :=
  ((s.entries.reverse, s.logs.reverse), { s with entries := [], logs := [] })

end Session

end VirtualClock.Script
