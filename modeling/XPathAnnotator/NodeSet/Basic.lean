/-
**Node-sets.**

A node-set holds distinct nodes in the order in which they were added. Its listing in document order is
computed with a balanced tree, which a set of two or more nodes keeps once it has been listed and drops
when a new node is added.

* `NodeSet.add`, `NodeSet.addAll`, `NodeSet.union` — making sets;
* `NodeSet.toList`, `NodeSet.first?` — the nodes in document order;
* `NodeSet.listed` — the set as it is after being listed.
-/

import XPathAnnotator.NodeSet.Balanced
import XPathAnnotator.Tree.Order

namespace XPathAnnotator

/-- Distinct nodes in the order of their addition, and the tree of the last listing. -/
structure NodeSet where
  nodes : Array Node
  tree : Option (Balanced Node)
deriving Inhabited

namespace NodeSet

/-- The set without nodes. -/
def empty : NodeSet := ⟨#[], none⟩

/-- The number of nodes of a set. -/
def size (s : NodeSet) : Nat := s.nodes.size

/-- Whether a node is in a set. -/
def contains (s : NodeSet) (n : Node) : Bool := s.nodes.contains n

/-- A set with a node added, unless it is there already. -/
def add (s : NodeSet) (n : Node) : NodeSet :=
  if s.contains n then s else ⟨s.nodes.push n, none⟩

/-- A set with nodes added in order. -/
def addAll (s : NodeSet) (nodes : List Node) : NodeSet := nodes.foldl add s

/-- The set of some nodes. -/
def ofList (nodes : List Node) : NodeSet := empty.addAll nodes

/-- The nodes in the order of their addition. -/
def inOrderOfAddition (s : NodeSet) : List Node := s.nodes.toList

/-- The nodes of two sets, those of the first before the others. -/
def union (s t : NodeSet) : NodeSet := (ofList s.inOrderOfAddition).addAll t.inOrderOfAddition

/-- The tree of a set: the one of the last listing, or a new one. -/
def sorted (f : Forest) (s : NodeSet) : Balanced Node :=
  s.tree.getD (Balanced.ofList f.order s.inOrderOfAddition)

/-- The nodes in document order. -/
def toList (f : Forest) (s : NodeSet) : List Node :=
  if s.size < 2 then s.inOrderOfAddition else (s.sorted f).toList

/-- The first node in document order. -/
def first? (f : Forest) (s : NodeSet) : Option Node :=
  if s.size < 2 then s.inOrderOfAddition.head? else (s.sorted f).least?

/-- A set after its nodes have been listed in document order. -/
def listed (f : Forest) (s : NodeSet) : NodeSet :=
  if s.size < 2 then s else ⟨s.nodes, some (s.sorted f)⟩

/-- The string values of the nodes, in the order of their addition. -/
def stringValues (f : Forest) (s : NodeSet) : List String := s.inOrderOfAddition.map f.stringValue

/-- The string value of a set: that of its first node. -/
def stringValue (f : Forest) (s : NodeSet) : String := ((s.first? f).map f.stringValue).getD ""

/-- The form of a set in messages. -/
def shown (f : Forest) (s : NodeSet) : String :=
  "XNodeSet([" ++ String.intercalate ", " ((s.toList f).map f.shown) ++ "])"

end NodeSet

end XPathAnnotator
