import VirtualClock.Reading

/-!
Scenarios: timers to be scheduled on a frozen clock, and the advances that are then made.
-/

namespace VirtualClock

/-- A timer of a scenario. Its counts of milliseconds have 64 bits with a sign. -/
structure TimerSpec where
  name : String
  after : Int
  /-- The period with which the timer is armed again after every firing. -/
  period : Option Int := none
deriving DecidableEq

/-- Timers and advances on a clock that is frozen at `epoch`. The advances are counts of
milliseconds in 64 bits without a sign. -/
structure Scenario where
  epoch : Reading
  timers : List TimerSpec := []
  advances : List Nat := []
deriving DecidableEq

end VirtualClock
