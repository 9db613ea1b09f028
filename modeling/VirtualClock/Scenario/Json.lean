import VirtualClock.Json
import VirtualClock.Reading.Parser
import VirtualClock.Scenario
import VirtualClock.Word64

/-!
Scenarios as JSON. A scenario or a timer is an object, or the array of its fields in order; fields
at the end may be missing if they have a default. Members of other names do not matter.
-/

namespace VirtualClock

namespace Json

/-- A number of 64 bits with a sign. -/
def signed64? : Json → Option Int
  | int n => if Word64.isSigned n then some n else none
  | _ => none

/-- A number of 64 bits without a sign. -/
def unsigned64? : Json → Option Nat
  | int n => if Word64.isUnsigned n then some n.toNat else none
  | _ => none

/-- A string. -/
def str? : Json → Option String
  | str s => some s
  | _ => none

/-- The elements of an array, each read by `f`. -/
def list? {α : Type} (f : Json → Option α) : Json → Option (List α)
  | arr elements => elements.mapM f
  | _ => none

/-- The values of the fields `names`: from the members of an object, or from an array that has no
more elements than there are names. -/
def fields? (names : List String) : Json → Option (List (Option Json))
  | obj members => some (names.map (member? · members))
  | arr elements =>
    if elements.length ≤ names.length then
      some (elements.map some ++ List.replicate (names.length - elements.length) none)
    else none
  | _ => none

end Json

/-- A timer as an object. -/
def TimerSpec.toJson (t : TimerSpec) : Json :=
  .obj [("name", .str t.name), ("after_ms", .int t.after),
    ("repeat_ms", match t.period with
      | some ms => .int ms
      | none => .null)]

/-- The timer that a value denotes. -/
def TimerSpec.ofJson? (v : Json) : Option TimerSpec := do
  match ← v.fields? ["name", "after_ms", "repeat_ms"] with
  | [some name, some after, period] =>
    let period ← match period with
      | none | some .null => some none
      | some v => v.signed64?.map some
    return ⟨← name.str?, ← after.signed64?, period⟩
  | _ => none

namespace Scenario

/-- A scenario as an object. -/
def toJson (s : Scenario) : Json :=
  .obj [("epoch", .str (.ofList (s.epoch.rfc3339 .fewest))),
    ("timers", .arr (s.timers.map TimerSpec.toJson)),
    ("advances", .arr (s.advances.map fun (ms : Nat) => .int ms))]

/-- The scenario that a value denotes. -/
def ofJson? (v : Json) : Option Scenario := do
  match ← v.fields? ["epoch", "timers", "advances"] with
  | [some epoch, timers, advances] =>
    let epoch ← Reading.ofString? (← epoch.str?)
    let timers ← (timers.getD (.arr [])).list? TimerSpec.ofJson?
    let advances ← (advances.getD (.arr [])).list? Json.unsigned64?
    return ⟨epoch, timers, advances⟩
  | _ => none

end Scenario

end VirtualClock
