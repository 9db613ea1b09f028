import VirtualClock.Script.Session

/-!
Running scripts. A step first finds its clock, then its handle, then reads its operands, and only
then acts. Panics are caught at the step that raised them, unless that step says otherwise.
-/

namespace VirtualClock.Script

/-- A computation of a step: it may be refused, and it may panic. -/
abbrev Exec := ExceptT Fault (Act Session)

namespace Exec

/-- What runs callbacks and lists of steps, and the bound on the loops of one step. -/
structure Runner where
  call : Nat → Act Session Unit
  scope : List Step → Act Session (List Report)
  fuel : Nat

/-- Raises a panic. -/
def panic {α : Type} (message : String) : Exec α := ExceptT.lift (throw (.panic message))

/-- The operand named `field`. -/
def operand {α : Type} (field : String) : Option α → Exec α
  | some a => pure a
  | none => throw (.malformed field)

/-- The provider that a target is. -/
def provider : Target → Exec Nat
  | .provider p => pure p
  | .source _ => throw .notAProvider

/-- The handle kept under `name`. -/
def handle (name : String) : Exec Handle := do
  match Session.lookup name (← get).handles with
  | some h => pure h
  | none => throw .unknownHandle

/-- The source that a target stands for now. -/
def source (t : Target) : Exec Source := return (← get).sourceOf t

/-- The timeline of a source. -/
def timeline (q : Source) : Exec (Timeline Nat) := return (← get).clocks.timeline q

/-- Acts on the timeline of a source. -/
def onTimeline {α : Type} (q : Source) (f : Timeline Nat → α × Timeline Nat) : Exec α := do
  let (a, t) := f (← timeline q)
  modify fun s => s.update q t
  return a

/-- The id of an event as it is told: ids of the real source are not. -/
def told : Source → Nat → Option Nat
  | .real, _ => none
  | .frozen _, id => some id

/-- Acts on the clocks and logs. -/
def onClocks (f : Clocks Nat → List LogEvent × Clocks Nat) : Exec Unit :=
  modify fun s => s.commit (f s.clocks)

/-- The instant `ms` milliseconds of real time from now. -/
def inReal (ms : Nat) : Exec Instant :=
  return (← get).clocks.real.now.deadline ⟨ms * 1000000⟩

/-- Blocks until `ready` holds or `limit` is reached. -/
def block (r : Runner) (ready : Session → Bool) (limit : Option Instant) : Exec Bool :=
  ExceptT.lift (Session.block r.call ready limit r.fuel)

/-- Advances a source. -/
def advance (r : Runner) (q : Source) (d : Delay) : Exec Delay :=
  ExceptT.lift ((Session.site q).advance r.call r.fuel d)

/-- A new timer, kept under `name`. -/
def newTimer (q : Source) (name : String) (d : Delay) (deliver : Delivery Nat) :
    Exec (Answer Report) := do
  let id ← onTimeline q (·.startTimer d deliver)
  modify fun s => s.keep name (.timer q id deliver)
  return .created (told q id)

/-- A new ticker. -/
def newTicker (q : Source) (d : Delay) : Exec (Except ClockError Nat) := do
  match (← timeline q).startTicker d with
  | .error e => return .error e
  | .ok (id, t) =>
    modify fun s => s.update q t
    return .ok id

/-- Arms a ticker with a new period. -/
def resetTicker (q : Source) (id : Nat) (d : Delay) : Exec (Except ClockError Bool) := do
  match (← timeline q).resetTicker id d with
  | .error e => return .error e
  | .ok (was, t) =>
    modify fun s => s.update q t
    return .ok was

/-- The source and the id of a handle with a channel, and whether the handle keeps it connected. -/
def channel : Handle → Exec (Source × Nat × Bool)
  | .timer q id _ | .ticker q id => pure (q, id, true)
  | .channel q id => pure (q, id, false)
  | .thread _ => throw .notAChannel

/-- The description of a handle. -/
def describe : Handle → Exec String
  | .timer _ id deliver =>
    let kind := match deliver with
      | .channel => "Channel"
      | .callback _ => "Callback"
    pure ("Timer \x7b id: EventId(" ++ toString id ++ "), deliver: " ++ kind ++ " \x7d")
  | .ticker _ id => pure ("Ticker \x7b id: EventId(" ++ toString id ++ ") \x7d")
  | .channel _ _ | .thread _ => throw (.unsupported "debug")

/-- Registers a waiter for `count` events that gives up after `ms` milliseconds of real time. -/
def startCounting (q : Source) (count ms : Nat) : Exec Thread := do
  let t ← timeline q
  if ms = 0 then return .ended (.counted (count ≤ t.pending))
  match t.register count with
  | none => return .ended (.counted true)
  | some (waiter, t) =>
    modify fun s => s.update q t
    return .counting q waiter (← inReal ms)

/-- Starts to sleep for `d`. A sleep that is not positive ends at once. -/
def startSleep (q : Source) (d : Delay) : Exec Thread := do
  if d.nanos ≤ 0 then return .ended .awake
  match q with
  | .real => return .asleepUntil ((← get).clocks.real.now.deadline d)
  | .frozen _ => return .asleep q (← onTimeline q (·.startTimer d .channel))

/-- Blocks until a thread ends or `limit` is reached. -/
def await (r : Runner) (thread : Thread) (limit : Option Instant) : Exec Joined := do
  let stop :=
    match Session.horizon? thread, limit with
    | some h, some l => some (if h ≤ l then h else l)
    | some h, none => some h
    | none, l => l
  let _ ← block r (fun s => (s.result? thread).isSome) stop
  return ((← get).result? thread).getD .waiting

/-- The end of a wait for pending events: the waiter is forgotten, whether it gave up or was notified,
and it is told whether it was notified. -/
def stopCounting : Thread → Exec Bool
  | .counting q waiter _ => do
    onTimeline q fun t => (t.queue.wasNotified waiter, t.cancel waiter)
  | .ended (.counted reached) => return reached
  | _ => return false

/-- Carries out a command on a target. -/
def command (r : Runner) (target : Target) : Command Step → Exec (Answer Report)
  | .newProvider name guard => do
    let guard ← operand "guard" (guard.getD (some .locked))
    let (p, clocks) := (← get).clocks.newProvider guard
    modify fun s => { s with clocks }.aim name (.provider p)
    return .done
  | .newSource name at_ => do
    let (q, clocks) := (← get).clocks.newTimeline (← operand "at" at_).reading
    modify fun s => { s with clocks }.aim name (.source q)
    return .done
  | .grab name => do
    let q ← source target
    modify fun s => s.aim name (.source q)
    return .done
  | .guardMode => do
    let p ← provider target
    return .text ((← get).clocks.provider p).guard.name
  | .configureGlobal => throw (.clock .alreadyInitialized)
  | .freeze at_ => do
    let p ← provider target
    let at_ ← operand "at" at_
    onClocks (·.freeze p at_.reading)
    return .done
  | .freezeUnfreeze at_ => do
    let p ← provider target
    let at_ ← operand "at" at_
    onClocks (·.freeze p at_.reading)
    onClocks (·.unfreeze p)
    return .done
  | .scoped at_ steps => do
    let p ← provider target
    let at_ ← operand "at" at_
    onClocks (·.freeze p at_.reading)
    let outcome ← ExceptT.lift
      (tryCatch (Except.ok <$> r.scope steps) fun stop => pure (.error stop))
    onClocks (·.unfreeze p)
    match outcome with
    | .ok reports => return .scope reports
    | .error stop => ExceptT.lift (throw stop)
  | .unfreeze => do
    let p ← provider target
    onClocks (·.unfreeze p)
    return .done
  | .isFrozen => return .bool ((← source target) != .real)
  | .now => return .instant (← timeline (← source target)).now
  | .since at_ => do
    let _ ← provider target
    let at_ ← operand "at" at_
    return .delay ((← timeline (← source target)).reading.since at_.reading)
  | .until at_ => do
    let _ ← provider target
    let at_ ← operand "at" at_
    return .delay (at_.reading.since (← timeline (← source target)).reading)
  | .frozenAt => do
    match ← source target with
    | .real => return .noInstant
    | q => return .instant (← timeline q).origin.instant
  | .pending => do
    match (← get).clocks.pending? (← source target) with
    | some n => return .count n
    | none => return .noCount
  | .realPending => return .count (← get).clocks.real.pending
  | .advance d => do
    let d ← operand "d" d
    match target, ← source target with
    | .source _, .real => throw .realSource
    | .provider _, .real => panic ClockError.notFrozen.message
    | _, q => return .delay (← advance r q d)
  | .tryAdvance d => do
    let _ ← provider target
    let d ← operand "d" d
    match ← source target with
    | .real => throw (.clock .notFrozen)
    | q => return .delay (← advance r q d)
  | .after name d => do
    let d ← operand "d" d
    let q ← source target
    let id ← onTimeline q (·.startTimer d .channel)
    modify fun s => s.keep name (.channel q id)
    return .channel
  | .timer name d => do
    let d ← operand "d" d
    newTimer (← source target) name d .channel
  | .stoppedTimer name => do
    let q ← source target
    let id ← onTimeline q (·.allocate)
    modify fun s => s.keep name (.timer q id .channel)
    return .created (told q id)
  | .func name d steps limit => do
    let d ← operand "d" d
    let (k, s) := (← get).addCallback ⟨name, target, steps, limit⟩
    set s
    newTimer (← source target) name d (.callback k)
  | .ticker name d => do
    let _ ← provider target
    let d ← operand "d" d
    let q ← source target
    match ← newTicker q d with
    | .error e => panic e.message
    | .ok id =>
      modify fun s => s.keep name (.ticker q id)
      return .created (told q id)
  | .tryTicker name d => do
    let d ← operand "d" d
    let q ← source target
    match ← newTicker q d with
    | .error e => throw (.clock e)
    | .ok id =>
      modify fun s => s.keep name (.ticker q id)
      return .created (told q id)
  | .tick name d => do
    let d ← operand "d" d
    let q ← source target
    match ← newTicker q d with
    | .error _ => return .noTicker
    | .ok id =>
      modify fun s => s.keep name (.channel q id)
      return .channel
  | .stop name => do
    match ← handle name with
    | .timer q id _ | .ticker q id => return .bool (← onTimeline q (·.disarm id))
    | _ => throw (.unsupported "stop")
  | .reset name d => do
    match ← handle name with
    | .timer q id deliver =>
      let d ← operand "d" d
      return .bool (← onTimeline q (·.resetTimer id d deliver))
    | .ticker q id =>
      let d ← operand "d" d
      match ← resetTicker q id d with
      | .error e => panic e.message
      | .ok was => return .bool was
    | _ => throw (.unsupported "reset")
  | .tryReset name d => do
    match ← handle name with
    | .ticker q id =>
      let d ← operand "d" d
      match ← resetTicker q id d with
      | .error e => throw (.clock e)
      | .ok was => return .bool was
    | _ => throw (.unsupported "try_reset")
  | .id name => do
    match ← handle name with
    | .timer q id _ | .ticker q id => return .ident (told q id)
    | _ => throw (.unsupported "id")
  | .drop name => do
    let known := (Session.lookup name (← get).handles).isSome
    modify fun s => { s with handles := s.handles.filter (·.1 != name) }
    return .bool known
  | .length name => do
    let (q, id, _) ← channel (← handle name)
    return .count (if (← timeline q).waiting.contains id then 1 else 0)
  | .receive name => do
    let (q, id, held) ← channel (← handle name)
    return .received (← onTimeline q (·.tryReceive id held))
  | .receiveWithin name ms => do
    let (q, id, held) ← channel (← handle name)
    let ready ← block r (fun s => (s.clocks.timeline q).isReady id held) (some (← inReal ms))
    if ready then return .received (← onTimeline q (·.tryReceive id held)) else return .timedOut
  | .describe none => do
    let s ← get
    match target with
    | .provider p => return .text (s.clocks.providerText p)
    | .source q => return .text (s.clocks.sourceText q)
  | .describe (some name) => do return .text (← describe (← handle name))
  | .wait count ms => do
    let count ← operand "count" count
    let thread ← startCounting (← source target) count ms
    let _ ← await r thread none
    return .bool (← stopCounting thread)
  | .sleep d => do
    let d ← operand "d" d
    let thread ← startSleep (← source target) d
    let _ ← await r thread none
    return .done
  | .spawnSleep name d => do
    let d ← operand "d" d
    let thread ← startSleep (← source target) d
    modify fun s => s.keep name (.thread thread)
    return .done
  | .spawnWait name count ms => do
    let count ← operand "count" count
    let thread ← startCounting (← source target) count ms
    modify fun s => s.keep name (.thread thread)
    let _ ← await r thread (some (← inReal 40))
    return .done
  | .join name ms => do
    match ← handle name with
    | .thread thread => return .joined (← await r thread (some (← inReal ms)))
    | _ => throw .notAThread
  | .waitFired count ms => do
    return .bool (← block r (fun s => count ≤ s.calls) (some (← inReal ms)))
  | .unknown => throw .unknownStep

end Exec

/-- The outcome of a computation, with a panic as a fault. -/
def caught (x : Exec (Answer Report)) : Act Session (Except Fault (Answer Report)) := fun s =>
  match x s with
  | (.error (.panic m), s) => (.ok (.error (.panic m)), s)
  | r => r

/-- Carries out a step. The panic of an uncaught step is raised again if `inner` says that there is
something for it to leave. -/
def Step.outcome (r : Exec.Runner) (inner : Bool) :
    Step → Act Session (Except Fault (Answer Report))
  | .mk on uncaught command => do
    match Session.lookup on (← get).targets with
    | none => return .error .unknownTarget
    | some target =>
      let outcome ← caught (Exec.command r target command)
      match outcome with
      | .error (.panic m) => if uncaught && inner then throw (.panic m) else return outcome
      | _ => return outcome

/-- Carries out a step and reports on it. -/
def Step.report (r : Exec.Runner) (inner : Bool) : Step → Act Session Report
  | .mk on uncaught command => do
    let target := Session.lookup on (← get).targets
    let outcome ← (Step.mk on uncaught command).outcome r inner
    let s ← get
    let state := target.map fun t =>
      let q := s.sourceOf t
      (s.instant q, s.clocks.pending? q)
    let ((fired, logs), s) := s.drain
    set s
    return .mk outcome state fired logs

mutual

/-- Runs the steps of a scope. -/
def runScope (fuel : Nat) : (depth : Nat) → List Step → Act Session (List Report)
  | 0, _ => throw .outOfFuel
  | depth + 1, steps =>
    steps.mapM (Step.report ⟨runCallback fuel depth, runScope fuel depth, fuel⟩ true)

/-- Runs a callback: it notes the instant on the clock it was made on, and then runs its steps, if
it has not run them often enough. -/
def runCallback (fuel : Nat) : (depth : Nat) → (callback : Nat) → Act Session Unit
  | 0, _ => throw .outOfFuel
  | depth + 1, k => do
    match (← get).callbacks[k]? with
    | none => return
    | some c =>
      modify fun s =>
        { s with
          entries := .fired c.name (s.instant (s.sourceOf c.target)) :: s.entries
          calls := s.calls + 1
          callbacks := s.callbacks.insert k { c with runs := c.runs - 1 } }
      if 0 < c.runs then
        for step in c.steps do
          let outcome ← step.outcome ⟨runCallback fuel depth, runScope fuel depth, fuel⟩ true
          modify fun s => { s with entries := .answered c.name outcome :: s.entries }

end

/-- Runs a script on a fresh session in which real time starts at `origin`. No loop of a step takes
more than `fuel` turns, and callbacks and scopes nest at most `depth` deep. -/
def run (fuel depth : Nat) (origin : Instant) (guard : GuardMode) (steps : List Step) :
    Except Stop (List Report) × Session :=
  let runner : Exec.Runner := ⟨runCallback fuel depth, runScope fuel depth, fuel⟩
  (steps.mapM (Step.report runner false)).run (Session.start origin guard)

end VirtualClock.Script
