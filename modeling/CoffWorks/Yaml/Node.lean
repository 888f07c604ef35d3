import CoffWorks.Yaml.Meaning

namespace CoffWorks.Yaml

/-- A node with the line it starts in, counted from one, and its tag. An alias points to a slot in which the
node of its anchor is found, so that a node may contain an alias of itself. -/
inductive Node where
  | scalar (line : Nat) (tag text : Bytes)
  | sequence (line : Nat) (tag : Bytes) (items : List Node)
  | mapping (line : Nat) (tag : Bytes) (pairs : List (Node × Node))
  /-- `id` tells this alias from all others. -/
  | aliasOf (line : Nat) (name : Bytes) (id slot : Nat)

namespace Node

def line : Node → Nat
  | scalar l .. => l
  | sequence l .. => l
  | mapping l .. => l
  | aliasOf l .. => l

/-- The tag in short form; aliases have none. -/
def tag : Node → Bytes
  | scalar _ t _ => t
  | sequence _ t _ => t
  | mapping _ t _ => t
  | aliasOf .. => .empty

/-- What stands for the node where nodes are compared or quoted. -/
def text : Node → Bytes
  | scalar _ _ b => b
  | aliasOf _ name .. => name
  | _ => .empty

/-- Whether two nodes are of one sort and have one text. -/
def sameKey : Node → Node → Bool
  | scalar _ _ a, scalar _ _ b => a == b
  | sequence .., sequence .. => true
  | mapping .., mapping .. => true
  | aliasOf _ a .., aliasOf _ b .. => a == b
  | _, _ => false

/-- A plain `<<`. -/
def isMerge : Node → Bool
  | scalar _ tag b => tag == Tag.merge && b == ("<<" : Bytes)
  | _ => false

end Node

/-- A document: its root and the nodes of the anchors. -/
structure Document where
  root : Node
  anchored : Array (Option Node)

/-- The node an alias stands for. -/
def Document.node? (d : Document) (slot : Nat) : Option Node := (d.anchored[slot]?).join

end CoffWorks.Yaml
