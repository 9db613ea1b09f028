import VirtualClock.Reading
import VirtualClock.Timeline

/-!
Timers and tickers on a timeline, and what their channels tell a receiver. A timer fires once each
time it is armed; a ticker fires again and again with a fixed period, which must be positive.
-/

namespace VirtualClock

/-- Misuse of a clock. -/
inductive ClockError where
  /-- Only a frozen clock can be advanced. -/
  | notFrozen
  /-- A ticker was given a period that is not positive. -/
  | nonPositiveInterval (period : Delay)
  /-- The guard of the global clock was chosen after the clock was in use. -/
  | alreadyInitialized
deriving DecidableEq

/-- What is reported of a misuse. -/
def ClockError.message : ClockError → String
  | notFrozen => "clock is not frozen, advance requires a frozen timeline"
  | nonPositiveInterval d => "non-positive interval for ticker: " ++ d.text
  | alreadyInitialized => "global clock already initialized"

/-- What a receiver finds in a channel. -/
inductive Received where
  | got (value : Instant)
  | empty
  /-- The channel is empty and nothing can send into it any more. -/
  | disconnected
deriving DecidableEq

namespace Timeline

variable {κ : Type}

/-- A new timer that fires after `d`. -/
def startTimer (t : Timeline κ) (d : Delay) (deliver : Delivery κ) : Nat × Timeline κ :=
  let (id, t) := t.allocate
  (id, (t.arm id d .zero deliver).2)

/-- Arms a timer again, to fire after `d`. The result says whether it was pending. -/
def resetTimer (t : Timeline κ) (id : Nat) (d : Delay) (deliver : Delivery κ) : Bool × Timeline κ :=
  t.arm id d .zero deliver

/-- A new ticker that fires after every period `d`. -/
def startTicker (t : Timeline κ) (d : Delay) : Except ClockError (Nat × Timeline κ) :=
  if d.nanos ≤ 0 then .error (.nonPositiveInterval d)
  else
    let (id, t) := t.allocate
    .ok (id, (t.arm id d d .channel).2)

/-- Changes the period of a ticker; its next tick is one period from now. The result says whether
it was running. -/
def resetTicker (t : Timeline κ) (id : Nat) (d : Delay) : Except ClockError (Bool × Timeline κ) :=
  if d.nanos ≤ 0 then .error (.nonPositiveInterval d) else .ok (t.arm id d d .channel)

/-- Receives from the channel of `id` without waiting. A channel stays connected while a handle
holds a sender or the event of `id` is pending. -/
def tryReceive (t : Timeline κ) (id : Nat) (held : Bool) : Received × Timeline κ :=
  match t.receive id with
  | some (value, t) => (.got value, t)
  | none => (if held || t.queue.isPending id then .empty else .disconnected, t)

/-- Whether a receiver on the channel of `id` need not wait. -/
def isReady (t : Timeline κ) (id : Nat) (held : Bool) : Bool :=
  t.waiting.contains id || !(held || t.queue.isPending id)

end Timeline

end VirtualClock
