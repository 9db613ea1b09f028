import VirtualClock.Config.Value
import VirtualClock.Yaml.Parser
import VirtualClock.Yaml.Plain

/-!
Settings as YAML. Of entries with one name the last counts. Collections may be nested 128 deep, and
aliases may not be followed much more often than a document has nodes.
-/

namespace VirtualClock.Config.Value

open Yaml

/-- What a scalar denotes: by its tag if it has one of those for plain values, else by its text if
it is plain. Tags of other kinds are refused. -/
def ofScalar? (tag : Option String) (style : Style) (text : String) : Option Value :=
  let cs := text.toList
  match tag with
  | none => some (if style == .plain then plain cs else str text)
  | some t =>
    if t.startsWith "!" then none
    else
      match t with
      | "tag:yaml.org,2002:bool" => (truth? cs).map bool
      | "tag:yaml.org,2002:int" => (whole? cs).map int
      | "tag:yaml.org,2002:float" => if isFloat cs then some float else none
      | "tag:yaml.org,2002:null" => if isNull cs then some null else none
      | _ => some (str text)
where
  /-- What a plain scalar denotes. -/
  plain (cs : List Char) : Value :=
    match denotation cs with
    | .null => null
    | .bool b => bool b
    | .int n => int n
    | .float => float
    | .text => str (.ofList cs)

/-- Whether a tag is one of an application. -/
def isPrivate (tag : Option String) : Bool := tag.any (·.startsWith "!")

/-- The node that a node stands for; the state counts the aliases that may still be followed. -/
def follow? (d : Document) (n : Node) : StateT Nat Option Node := do
  let (n, used) ← (d.resolve n : Option (Node × Nat))
  if (← get) < used then failure
  modify (· - used)
  return n

/-- The text of a scalar. -/
def key? (d : Document) (n : Node) : StateT Nat Option String := do
  match ← follow? d n with
  | .scalar _ _ text => return text
  | _ => failure

/-- The value of a node in collections that may be nested `depth` deep. -/
def ofNode? (d : Document) : (depth : Nat) → Node → StateT Nat Option Value
  | depth, n => do
    match ← follow? d n with
    | .scalar tag style text => (ofScalar? tag style text : Option Value)
    | .sequence tag items =>
      match depth with
      | 0 => failure
      | depth + 1 =>
        if isPrivate tag then failure
        return array (← items.mapM (ofNode? d depth))
    | .mapping tag entries =>
      match depth with
      | 0 => failure
      | depth + 1 =>
        if isPrivate tag then failure
        let entries ← entries.mapM fun (k, v) => do
          let k ← key? d k
          return (k, ← ofNode? d depth v)
        return table (entries.foldl (fun t (k, v) => put k v t) [])
    | .reference _ => failure

/-- The settings that a document holds: a mapping, or nothing. -/
def ofDocument? (d : Document) : Option (List (String × Value)) :=
  match d.root with
  | none => some []
  | some root =>
    match d.target? root with
    | some (.scalar _ .plain "") => some []
    | some (.mapping _ entries) => do
      let (v, _) ← (ofNode? d 128 (.mapping none entries)).run (100 * root.events)
      match v with
      | table entries => some entries
      | _ => none
    | _ => none

/-- The settings that a text holds. -/
def ofYaml? (s : String) : Option (List (String × Value)) := Document.ofString? s >>= ofDocument?

end VirtualClock.Config.Value
