import VirtualClock.Reading.Parser
import VirtualClock.Scenario
import VirtualClock.Word64
import VirtualClock.Yaml.Parser
import VirtualClock.Yaml.Plain

/-!
Scenarios as YAML. A scenario and a timer are mappings, in which fields of other names do not
matter, but no field may be given twice. Any scalar is a string; numbers must be plain and whole.
-/

namespace VirtualClock

namespace Yaml

namespace Document

/-- The text of a scalar. -/
def str? (d : Document) (n : Node) : Option String :=
  match d.target? n with
  | some (.scalar _ _ text) => some text
  | _ => none

/-- The text of a scalar that may be a number: a plain one, or a literal block with that tag. -/
def number? (d : Document) (n : Node) : Option (List Char) :=
  match d.target? n with
  | some (.scalar tag style text) =>
    if style == .plain || (style == .literal && tag == some "tag:yaml.org,2002:int") then
      some text.toList
    else none
  | _ => none

/-- A number of 64 bits with a sign. -/
def signed64? (d : Document) (n : Node) : Option Int := do
  let value ← whole? (← d.number? n)
  if Word64.isSigned value then some value else none

/-- A number of 64 bits without a sign. -/
def unsigned64? (d : Document) (n : Node) : Option Nat := do
  let value ← unsigned? (← d.number? n)
  if Word64.isUnsigned value then some value else none

/-- What `f` reads, or nothing for a plain scalar that denotes nothing. -/
def optional? {α : Type} (d : Document) (f : Node → Option α) (n : Node) : Option (Option α) :=
  match d.target? n with
  | some (.scalar tag .plain text) =>
    match tag with
    | some "tag:yaml.org,2002:null" => if isNull text.toList then some none else none
    | some _ => (f n).map some
    | none => if text.isEmpty || isNull text.toList then some none else (f n).map some
  | _ => (f n).map some

/-- The items of a sequence, or none for an empty plain scalar. -/
def items? (d : Document) (n : Node) : Option (List Node) :=
  match d.target? n with
  | some (.sequence _ items) => some items
  | some (.scalar _ .plain "") => some []
  | _ => none

/-- The items of a sequence, each read by `f`. -/
def list? {α : Type} (d : Document) (f : Node → Option α) (n : Node) : Option (List α) := do
  (← d.items? n).mapM f

/-- The entries of a mapping with their keys as text, or none for an empty plain scalar. -/
def fields? (d : Document) (n : Node) : Option (List (String × Node)) :=
  match d.target? n with
  | some (.mapping _ entries) => entries.mapM fun (k, v) => return (← d.str? k, v)
  | some (.scalar _ .plain "") => some []
  | _ => none

end Document

/-- The value of a field; the field must not be given twice. -/
def field? (fields : List (String × Node)) (name : String) : Option (Option Node) :=
  match fields.filter (·.1 == name) with
  | [] => some none
  | [(_, n)] => some (some n)
  | _ => none

end Yaml

open Yaml

/-- The timer that a node denotes. -/
def TimerSpec.ofYaml? (d : Document) (n : Node) : Option TimerSpec := do
  let fields ← d.fields? n
  let name ← d.str? (← ← field? fields "name")
  let after ← d.signed64? (← ← field? fields "after_ms")
  match ← field? fields "repeat_ms" with
  | none => some ⟨name, after, none⟩
  | some period => some ⟨name, after, ← d.optional? d.signed64? period⟩

namespace Scenario

/-- The scenario that a document denotes. -/
def ofDocument? (d : Document) : Option Scenario := do
  let fields ← d.fields? (← d.root)
  let epoch ← Reading.ofString? (← d.str? (← ← field? fields "epoch"))
  let timers ← match ← field? fields "timers" with
    | none => some []
    | some n => d.list? (TimerSpec.ofYaml? d) n
  let advances ← match ← field? fields "advances" with
    | none => some []
    | some n => d.list? d.unsigned64? n
  some ⟨epoch, timers, advances⟩

/-- The scenario that a text denotes. -/
def ofYaml? (s : String) : Option Scenario := Document.ofString? s >>= ofDocument?

end Scenario

end VirtualClock
