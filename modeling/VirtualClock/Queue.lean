import Std.Data.TreeMap.Basic
import VirtualClock.Event

/-!
The queue of pending events: an ordered map from keys to events, an index from ids to keys, and
the callers that wait for a number of events to be pending at once. An event is active exactly
while it is in the map. Every insertion draws a fresh sequence number, so an event that is armed
again comes after everything already queued for its target.
-/

namespace VirtualClock

/-- A caller that waits until `count` events are pending. -/
structure Waiter where
  id : Nat
  count : Nat
deriving DecidableEq

/-- Pending events with deliveries in `δ`. -/
structure EventQueue (δ : Type) where
  pending : Std.TreeMap OrderKey (Event δ) := ∅
  index : Std.TreeMap Nat OrderKey := ∅
  /-- The last sequence number drawn. -/
  sequence : Nat := 0
  /-- The last id handed out. -/
  lastId : Nat := 0
  /-- The last waiter registered. -/
  lastWaiter : Nat := 0
  waiters : List Waiter := []
  /-- The waiters that were notified, latest first. -/
  notified : List Nat := []

namespace EventQueue

variable {δ : Type}

instance : Inhabited (EventQueue δ) := ⟨{}⟩

/-- Hands out an id for a new timer or ticker. -/
def allocate (q : EventQueue δ) : Nat × EventQueue δ :=
  (q.lastId + 1, { q with lastId := q.lastId + 1 })

/-- The number of pending events. -/
def size (q : EventQueue δ) : Nat := q.pending.size

/-- Whether the event of `id` is pending. -/
def isPending (q : EventQueue δ) (id : Nat) : Bool := q.index.contains id

/-- The target of the event that fires next. -/
def nextDeadline (q : EventQueue δ) : Option Instant := q.pending.minKey?.map (·.target)

/-- Queues an event under a fresh sequence number. -/
def push (q : EventQueue δ) (e : Event δ) : EventQueue δ :=
  let e := { e with sequence := q.sequence + 1 }
  { q with
    pending := q.pending.insert e.key e
    index := q.index.insert e.id e.key
    sequence := q.sequence + 1 }

/-- Notifies and forgets every waiter whose count is reached. -/
def notify (q : EventQueue δ) : EventQueue δ :=
  let reached := q.waiters.filter (·.count ≤ q.size)
  { q with
    waiters := q.waiters.filter (q.size < ·.count)
    notified := reached.reverse.map (·.id) ++ q.notified }

/-- Takes the event of `id` off the queue, if it is pending. -/
def remove (q : EventQueue δ) (id : Nat) : Option (Event δ) × EventQueue δ :=
  match q.index[id]? with
  | none => (none, q)
  | some key =>
    (q.pending[key]?, { q with pending := q.pending.erase key, index := q.index.erase id })

/-- Queues the event of `id` to fire at `target`, in place of its pending event if there is one.
The result says whether there was one. -/
def insert (q : EventQueue δ) (id : Nat) (target : Instant) (interval : Delay) (deliver : δ) :
    Bool × EventQueue δ :=
  let (previous, q) := q.remove id
  (previous.isSome, (q.push ⟨id, target, 0, interval, deliver⟩).notify)

/-- Queues a ticker that has just fired for its next tick, which is one period after the tick that
fired. A ticker whose next tick is past the last instant is retired. -/
def requeue (q : EventQueue δ) (e : Event δ) : EventQueue δ :=
  if e.isTicker then
    match e.target.add? e.interval with
    | some next => (q.push { e with target := next }).notify
    | none => q
  else q

/-- Takes the earliest event due at or before `limit` off the queue; a ticker is queued again. -/
def popDue (q : EventQueue δ) (limit : Instant) : Option (Firing δ × EventQueue δ) :=
  match q.pending.minKey? with
  | none => none
  | some key =>
    if limit < key.target then none
    else
      match q.pending[key]? with
      | none => none
      | some e =>
        let rest := { q with pending := q.pending.erase key, index := q.index.erase e.id }
        some (⟨e.id, e.target, e.deliver⟩, rest.requeue e)

/-- Drops every pending event and every waiter, and counts the events. -/
def clear (q : EventQueue δ) : Nat × EventQueue δ :=
  (q.size, { q with pending := ∅, index := ∅, waiters := [] })

/-- Registers a caller that waits for `count` pending events; `none` if there are as many. -/
def register (q : EventQueue δ) (count : Nat) : Option (Nat × EventQueue δ) :=
  if count ≤ q.size then none
  else
    let id := q.lastWaiter + 1
    some (id, { q with lastWaiter := id, waiters := q.waiters ++ [⟨id, count⟩] })

/-- Forgets a waiter that gave up. -/
def cancel (q : EventQueue δ) (waiter : Nat) : EventQueue δ :=
  { q with waiters := q.waiters.filter (·.id != waiter) }

/-- Whether `waiter` was notified. -/
def wasNotified (q : EventQueue δ) (waiter : Nat) : Bool := q.notified.contains waiter

/-- Whether `waiter` is registered. -/
def isWaiting (q : EventQueue δ) (waiter : Nat) : Bool := q.waiters.any (·.id == waiter)

end EventQueue

end VirtualClock
