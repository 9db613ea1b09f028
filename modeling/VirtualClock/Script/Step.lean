import VirtualClock.Clocks

/-!
Scripts: lists of steps that drive clocks, timers and channels under names of their own. A step
that makes a callback timer carries the steps that its callback runs. An operand that could not be
read is `none`; it is refused only after the clock and the handle of its step are found.
-/

namespace VirtualClock.Script

/-- What a step does; `σ` is the type of the steps it carries. -/
inductive Command (σ : Type) where
  /-- A new provider; `none` leaves the guard to the default. -/
  | newProvider (name : String) (guard : Option (Option GuardMode))
  | newSource (name : String) (at_ : Option Instant)
  /-- Names the source that is installed now. -/
  | grab (name : String)
  | guardMode
  | configureGlobal
  | freeze (at_ : Option Instant)
  | freezeUnfreeze (at_ : Option Instant)
  /-- Freezes, runs steps and unfreezes, however the steps end. -/
  | scoped (at_ : Option Instant) (steps : List σ)
  | unfreeze
  | isFrozen
  | now
  | since (at_ : Option Instant)
  | until (at_ : Option Instant)
  | frozenAt
  | pending
  | realPending
  | advance (d : Option Delay)
  | tryAdvance (d : Option Delay)
  | after (name : String) (d : Option Delay)
  | timer (name : String) (d : Option Delay)
  | stoppedTimer (name : String)
  /-- A timer whose callback runs `steps` at its first `limit` firings. -/
  | func (name : String) (d : Option Delay) (steps : List σ) (limit : Nat)
  | ticker (name : String) (d : Option Delay)
  | tryTicker (name : String) (d : Option Delay)
  | tick (name : String) (d : Option Delay)
  | stop (handle : String)
  | reset (handle : String) (d : Option Delay)
  | tryReset (handle : String) (d : Option Delay)
  | id (handle : String)
  | drop (handle : String)
  | length (handle : String)
  | receive (handle : String)
  | receiveWithin (handle : String) (ms : Nat)
  /-- Describes a handle, or without one the clock. -/
  | describe (handle : Option String)
  | wait (count : Option Nat) (ms : Nat)
  | sleep (d : Option Delay)
  | spawnSleep (name : String) (d : Option Delay)
  | spawnWait (name : String) (count : Option Nat) (ms : Nat)
  | join (handle : String) (ms : Nat)
  | waitFired (count : Nat) (ms : Nat)
  | unknown

/-- A step on the clock named `on`. A panic of an `uncaught` step leaves the callback or the scope
that runs it. -/
inductive Step where
  | mk (on : String) (uncaught : Bool) (command : Command Step)

instance : Inhabited Step := ⟨.mk "main" false .unknown⟩

/-- Why a step was refused or failed. -/
inductive Fault where
  | unknownTarget
  | notAProvider
  | unknownHandle
  /-- The handle does not offer the operation. -/
  | unsupported (operation : String)
  /-- The handle has no channel. -/
  | notAChannel
  /-- The handle is no thread. -/
  | notAThread
  | malformed (field : String)
  | realSource
  | unknownStep
  | clock (error : ClockError)
  | panic (message : String)
deriving DecidableEq

namespace Fault

/-- The kind of a fault. -/
def kind : Fault → String
  | clock .notFrozen => "NotFrozen"
  | clock (.nonPositiveInterval _) => "NonPositiveInterval"
  | clock .alreadyInitialized => "AlreadyInitialized"
  | panic _ => "panic"
  | _ => "BadInput"

/-- What is reported of a fault. -/
def message : Fault → String
  | unknownTarget => "unknown target"
  | notAProvider => "not a provider"
  | unknownHandle => "unknown handle"
  | unsupported operation => "no " ++ operation
  | notAChannel => "not a channel"
  | notAThread => "not a thread"
  | malformed field => field
  | realSource => "real source"
  | unknownStep => "unknown step"
  | clock e => e.message
  | panic m => m

end Fault

/-- How a thread ended. -/
inductive Joined where
  | awake
  /-- Whether the awaited number of events was pending. -/
  | counted (reached : Bool)
  | waiting
deriving DecidableEq

/-- What a step answers; `ρ` is the type of reports on the steps it ran. -/
inductive Answer (ρ : Type) where
  | done
  | bool (b : Bool)
  | count (n : Nat)
  | noCount
  | instant (t : Instant)
  | noInstant
  | delay (d : Delay)
  /-- The id of a new timer; the real source does not tell it. -/
  | created (id : Option Nat)
  /-- The id of a handle. -/
  | ident (id : Option Nat)
  | channel
  | noTicker
  | text (s : String)
  | received (r : Received)
  | timedOut
  | joined (j : Joined)
  | scope (reports : List ρ)

/-- What happened in callbacks, in order; `ρ` is the type of reports. -/
inductive Entry (ρ : Type) where
  | fired (name : String) (now : Instant)
  | answered (name : String) (outcome : Except Fault (Answer ρ))

/-- What is reported of a step: its outcome, the instant of its clock and the events pending there
afterwards, what callbacks did since the last report, and the log. -/
inductive Report where
  | mk (outcome : Except Fault (Answer Report)) (state : Option (Instant × Option Nat))
    (fired : List (Entry Report)) (logs : List LogEvent)

instance : Inhabited Report := ⟨.mk (.error .unknownStep) none [] []⟩

end VirtualClock.Script
