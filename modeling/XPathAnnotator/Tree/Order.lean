/-
**Document order.**

An element comes before its namespace nodes, these before its attributes, and these before its children.
Two nodes that were built in one tree compare by their positions. Others are compared by walking up: the
deeper node climbs to the depth of the other, then both climb until they have one parent, under which
their places decide. Nodes of different trees have no order: each comes after the other.
-/

import XPathAnnotator.Tree.Walk

namespace XPathAnnotator

namespace Forest

/-- A node followed by its ancestors up to the root. -/
def lineage (f : Forest) (n : Node) : List Node := n :: f.ancestors n

/-- The rank of a node among those that hang on one element: namespace nodes, attributes, children. -/
def rank (f : Forest) (n : Node) : Nat :=
  match f.kind n with
  | .namespace => 0
  | .attribute => 1
  | _ => 2

/-- The order of two different nodes under one parent. -/
def orderUnderParent (f : Forest) (a b : Node) : Ordering :=
  if f.rank a < f.rank b then .lt
  else if f.rank b < f.rank a then .gt
  else if f.index a < f.index b then .lt else .gt

/-- The order of two different nodes at one depth, given with their ancestors: that of the highest
different ones. -/
def orderOfLineages (f : Forest) : List Node → List Node → Ordering
  | a :: p :: as, b :: q :: bs =>
    if p = q then f.orderUnderParent a b else f.orderOfLineages (p :: as) (q :: bs)
  | _, _ => .gt

/-- The order of two different nodes by their ancestors. -/
def orderByAncestors (f : Forest) (a b : Node) : Ordering :=
  let as := f.lineage a
  let bs := f.lineage b
  if bs.length < as.length then
    let as := as.drop (as.length - bs.length)
    if as.head? = some b then .gt else f.orderOfLineages as bs
  else if as.length < bs.length then
    let bs := bs.drop (bs.length - as.length)
    if bs.head? = some a then .lt else f.orderOfLineages as bs
  else f.orderOfLineages as bs

/-- The document order of two nodes. -/
def order (f : Forest) (a b : Node) : Ordering :=
  if a = b then .eq
  else match f.position? a, f.position? b with
    | some p, some q =>
      if f.isSameTree a b then (if p < q then .lt else .gt) else f.orderByAncestors a b
    | _, _ => f.orderByAncestors a b

end Forest

end XPathAnnotator
