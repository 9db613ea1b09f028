import VirtualClock.Log
import VirtualClock.Reading
import VirtualClock.Timeline

/-!
Advancing a timeline that is part of a larger state. Callbacks act on the whole state, so they may
schedule, stop and reset, advance the same timeline again, or leave by a panic; between two steps
on the timeline anything may happen to it.
-/

namespace VirtualClock

/-- Why a computation ended before it was done. -/
inductive Stop where
  /-- A panic with this message; what happened before it stays done. -/
  | panic (message : String)
  /-- The bound on the number of steps was reached. -/
  | outOfFuel
deriving DecidableEq

/-- A computation on a state `σ` that may stop early. -/
abbrev Act (σ : Type) := ExceptT Stop (StateM σ)

/-- Where a state keeps a timeline, and how it logs. -/
structure Site (σ κ : Type) where
  timeline : σ → Timeline κ
  update : Timeline κ → σ → σ
  record : LogEvent → σ → σ
  /-- How an instant is written in the log. -/
  stamp : Instant → String
  timeline_update : ∀ t s, timeline (update t s) = t
  timeline_record : ∀ e s, timeline (record e s) = timeline s

namespace Site

variable {σ κ : Type}

/-- The log event of a negative advance. -/
def ignored (d : Delay) : LogEvent :=
  ⟨.warn, "tackle_clock::frozen", "negative advance ignored", [("delta", d.text)], none⟩

/-- The log event of a firing. -/
def firing (site : Site σ κ) (f : Firing (Delivery κ)) : LogEvent :=
  ⟨.trace, "tackle_clock::frozen", "firing", [("id", toString f.id), ("at", site.stamp f.at_)],
    none⟩

/-- The log event at the end of an advance. -/
def advanced (d : Delay) (fired pending : Nat) : LogEvent :=
  ⟨.debug, "tackle_clock::frozen", "advanced frozen clock",
    [("delta", d.text), ("fired", toString fired), ("pending", toString pending)], none⟩

/-- Delivers a firing: `value` goes into its channel, or its callback is called. -/
def deliver (site : Site σ κ) (call : κ → Act σ Unit) (f : Firing (Delivery κ)) (value : Instant) :
    Act σ Unit :=
  match f.deliver with
  | .channel => fun s => (.ok (), site.update ((site.timeline s).send f.id value) s)
  | .callback k => call k

/-- Fires every event due at or before `limit`, each at its own target, until none is left, and
counts the firings from `fired` on. -/
def fire (site : Site σ κ) (call : κ → Act σ Unit) (limit : Instant) :
    (fuel fired : Nat) → Act σ Nat
  | 0, _ => fun s => (.error .outOfFuel, s)
  | fuel + 1, fired => fun s =>
    match (site.timeline s).popDue limit with
    | none => (.ok fired, s)
    | some (f, t) =>
      match site.deliver call f f.at_ (site.record (site.firing f) (site.update t s)) with
      | (.error stop, s) => (.error stop, s)
      | (.ok _, s) => site.fire call limit fuel (fired + 1) s

/-- Moves the timeline forward by `d`, or not at all if `d` is negative, and fires what falls due.
The result is the time passed since the timeline started. -/
def advance (site : Site σ κ) (call : κ → Act σ Unit) (fuel : Nat) (d : Delay) : Act σ Delay := do
  if d.nanos < 0 then modify (site.record (ignored d))
  let limit := (site.timeline (← get)).limit d
  let fired ← site.fire call limit fuel 0
  modify fun s => site.update ((site.timeline s).settle limit) s
  let t := site.timeline (← get)
  modify (site.record (advanced d.clamp fired t.pending))
  return t.elapsed

end Site

end VirtualClock
