import VirtualClock.Yaml.Scalar

/-!
YAML documents as trees. An alias stands for the node that its anchor names, which may contain the
alias itself, so it is kept as the number of the anchor and followed only where a value is needed.
-/

namespace VirtualClock.Yaml

/-- A node. Tags are complete, with their handles replaced. -/
inductive Node where
  | scalar (tag : Option String) (style : Style) (text : String)
  | sequence (tag : Option String) (items : List Node)
  | mapping (tag : Option String) (entries : List (Node × Node))
  | reference (anchor : Nat)

namespace Node

/-- The node where there is nothing. -/
def empty : Node := scalar none .plain ""

instance : Inhabited Node := ⟨empty⟩

mutual

/-- The number of steps in which a node is written: one for a scalar or an alias, and a start and
an end for each collection. -/
def events : Node → Nat
  | scalar .. | reference _ => 1
  | sequence _ items => eventsItems items + 2
  | mapping _ entries => eventsEntries entries + 2

/-- The steps of items. -/
def eventsItems : List Node → Nat
  | [] => 0
  | n :: rest => n.events + eventsItems rest

/-- The steps of entries. -/
def eventsEntries : List (Node × Node) → Nat
  | [] => 0
  | (k, v) :: rest => k.events + v.events + eventsEntries rest

end

end Node

/-- A document: its node, if it is not missing, and the nodes with anchors by the numbers of
these. -/
structure Document where
  root : Option Node
  anchored : List (Nat × Node) := []

namespace Document

/-- The node that a node stands for, and the aliases followed to it. -/
def resolve (d : Document) : Node → Option (Node × Nat)
  | .reference k => (d.anchored.find? (·.1 == k)).map fun (_, n) => (n, 1)
  | n => some (n, 0)

/-- The node that a node stands for. -/
def target? (d : Document) (n : Node) : Option Node := (d.resolve n).map (·.1)

end Document

end VirtualClock.Yaml
