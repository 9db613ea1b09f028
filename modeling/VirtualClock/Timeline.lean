import VirtualClock.Queue
import VirtualClock.Reading

/-!
A timeline: what the clock showed when it was set, the instant it has come to since, a queue of
pending events and the values that wait in the channels of its timers. Every operation is one step
that a caller takes with the timeline to itself. An advance consists of such steps: fix a limit, pop
one due event after another and deliver each, and settle on the limit.
-/

namespace VirtualClock

/-- Where a firing goes: into the one-place channel of its timer or ticker, or to the callback
`κ`. -/
inductive Delivery (κ : Type) where
  | channel
  | callback (callback : κ)
deriving DecidableEq

/-- A timeline whose events call back `κ`. -/
structure Timeline (κ : Type) where
  /-- What the clock showed when the timeline started. -/
  origin : Reading
  now : Instant
  queue : EventQueue (Delivery κ) := {}
  /-- The values that were sent and not yet received, by the id of the timer or ticker. -/
  waiting : Std.TreeMap Nat Instant := ∅

namespace Timeline

variable {κ : Type}

instance : Inhabited (Timeline κ) := ⟨{ origin := default, now := default }⟩

/-- A fresh timeline at `at_`, with nothing pending. -/
def start (at_ : Reading) : Timeline κ := { origin := at_, now := at_.instant }

/-- The number of pending events. -/
def pending (t : Timeline κ) : Nat := t.queue.size

/-- What the clock shows now. -/
def reading (t : Timeline κ) : Reading := t.origin.carry t.now

/-- The time that the clock shows to have passed since the timeline started. -/
def elapsed (t : Timeline κ) : Delay := t.reading.since t.origin

/-- Hands out an id for a new timer or ticker. -/
def allocate (t : Timeline κ) : Nat × Timeline κ :=
  let (id, queue) := t.queue.allocate
  (id, { t with queue })

/-- Queues `id` to fire after `delay`, at once if that is negative. The result says whether it was
pending before. -/
def arm (t : Timeline κ) (id : Nat) (delay interval : Delay) (deliver : Delivery κ) :
    Bool × Timeline κ :=
  let (was, queue) := t.queue.insert id (t.now.deadline delay.clamp) interval deliver
  (was, { t with queue })

/-- Takes `id` off the queue. The result says whether it was pending. -/
def disarm (t : Timeline κ) (id : Nat) : Bool × Timeline κ :=
  let (event, queue) := t.queue.remove id
  (event.isSome, { t with queue })

/-- The instant up to which an advance by `d` fires events. -/
def limit (t : Timeline κ) (d : Delay) : Instant := t.now.deadline d.clamp

/-- Takes the earliest event due at or before `limit` off the queue and moves to its target. -/
def popDue (t : Timeline κ) (limit : Instant) : Option (Firing (Delivery κ) × Timeline κ) :=
  (t.queue.popDue limit).map fun (firing, queue) =>
    (firing, { t with queue, now := t.now.later firing.at_ })

/-- The end of an advance: the timeline is now at least at the limit. -/
def settle (t : Timeline κ) (limit : Instant) : Timeline κ := { t with now := t.now.later limit }

/-- Abandons every pending event and every waiter, and counts the events. -/
def discard (t : Timeline κ) : Nat × Timeline κ :=
  let (count, queue) := t.queue.clear
  (count, { t with queue })

/-- Sends `value` into the channel of `id`; it is dropped if the channel still holds a value. -/
def send (t : Timeline κ) (id : Nat) (value : Instant) : Timeline κ :=
  { t with waiting := t.waiting.insertIfNew id value }

/-- Takes the value out of the channel of `id`. -/
def receive (t : Timeline κ) (id : Nat) : Option (Instant × Timeline κ) :=
  t.waiting[id]?.map fun value => (value, { t with waiting := t.waiting.erase id })

/-- Registers a caller that waits for `count` pending events; `none` if there are as many. -/
def register (t : Timeline κ) (count : Nat) : Option (Nat × Timeline κ) :=
  (t.queue.register count).map fun (waiter, queue) => (waiter, { t with queue })

/-- Forgets a waiter that gave up. -/
def cancel (t : Timeline κ) (waiter : Nat) : Timeline κ :=
  { t with queue := t.queue.cancel waiter }

end Timeline

end VirtualClock
