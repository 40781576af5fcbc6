import LedgerIndex.Entries

/-! # Nodes and documents

A document is a tree of nodes.  An alias stands for the node that carries its anchor, which may be
elsewhere in the document, and may even contain the alias. -/

namespace LedgerIndex.Yaml

/-- A scalar: its text, whether it was written without quotation marks, and its tag in full. -/
structure Scalar where
  text : String
  plain : Bool := true
  tag : Option String := none
deriving DecidableEq, Repr

/-- A node; an alias is the slot of its anchor. -/
inductive Node where
  | scalar (scalar : Scalar)
  | sequence (items : List Node)
  | mapping (entries : List (Node × Node))
  | alias (slot : Nat)
deriving Repr, Inhabited

def Node.empty : Node := .scalar { text := "" }

/-- The anchors of a document.  A new name takes the slot whose number is that of the names so far,
and so does a name that is used again; the anchored nodes are numbered as they begin, and a slot
stands for the last of them that took it. -/
structure Anchors where
  slots : List (String × Nat) := []
  holders : List (Nat × Nat) := []
  begun : Nat := 0
  nodes : List (Nat × Node) := []
deriving Repr, Inhabited

namespace Anchors

def slot? (anchors : Anchors) (name : String) : Option Nat :=
  Entries.get? name anchors.slots

/-- Gives a name to the node that begins. -/
def declare (anchors : Anchors) (name : String) : Anchors :=
  let slot := anchors.slots.length
  { anchors with
    slots := Entries.put name slot anchors.slots
    holders := Entries.put slot anchors.begun anchors.holders
    begun := anchors.begun + 1 }

/-- Records the anchored node with a number. -/
def record (anchors : Anchors) (number : Nat) (node : Node) : Anchors :=
  { anchors with nodes := (number, node) :: anchors.nodes }

/-- The node that a slot stands for. -/
def node? (anchors : Anchors) (slot : Nat) : Option Node :=
  (Entries.get? slot anchors.holders).bind fun number => anchors.nodes.lookup number

end Anchors

structure Document where
  root : Node
  anchors : Anchors := {}
deriving Repr, Inhabited

/-- The node that a node stands for. -/
def Document.follow (document : Document) : Node → Node
  | .alias slot => (document.anchors.node? slot).getD .empty
  | node => node

end LedgerIndex.Yaml
