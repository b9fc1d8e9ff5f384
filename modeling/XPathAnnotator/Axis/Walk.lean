/-
**The nodes of an axis.**

`Axis.nodes` lists the nodes that an axis reaches from a node: forward axes and the axes of ancestors and
preceding siblings from the nearest on, the preceding nodes in document order. A virtual root stands for
the root of the tree: the axes that go up end there, and the preceding nodes are those below it.
-/

import XPathAnnotator.Axis.Basic
import XPathAnnotator.Tree.Walk

namespace XPathAnnotator

namespace Axis

/-- The items of a list up to the first one of a kind, and that one too. -/
def upTo {α : Type} (last : α → Bool) : List α → List α
  | [] => []
  | item :: items => if last item then [item] else item :: upTo last items

/-- Whether a node is the virtual root. -/
def isVirtualRoot (virtualRoot : Option Node) (n : Node) : Bool := virtualRoot == some n

/-- The ancestors of a node up to the virtual root, the nearest first. -/
def ancestorsOf (f : Forest) (virtualRoot : Option Node) (n : Node) : List Node :=
  if isVirtualRoot virtualRoot n then [] else upTo (isVirtualRoot virtualRoot) (f.ancestors n)

/-- The root of the tree of a node, or the virtual root. -/
def rootOf (f : Forest) (virtualRoot : Option Node) (n : Node) : Node :=
  virtualRoot.getD (f.root n)

/-- The element that the nodes around a node are told by: for attributes and namespaces their owner. -/
def anchor? (f : Forest) (n : Node) : Option Node :=
  if (f.kind n).isAttributeLike then (f.parent? n).map Node.item else some n

/-- The nodes after a node that are no descendants of it, where those of an owner come after its
attributes and namespaces. -/
def followingOf (f : Forest) (virtualRoot : Option Node) (n : Node) : List Node :=
  match anchor? f n with
  | none => []
  | some anchor =>
    let below := if anchor == n then [] else f.descendants anchor
    let climb := (anchor :: f.ancestors anchor).takeWhile fun a => !isVirtualRoot virtualRoot a
    below ++ climb.flatMap fun a => (f.followingSiblings a).flatMap f.subtree

/-- The nodes before a node that are no ancestors of it. -/
def precedingOf (f : Forest) (virtualRoot : Option Node) (n : Node) : List Node :=
  match anchor? f n with
  | none => []
  | some anchor =>
    if anchor != n && !f.isElement anchor then []
    else
      let ancestors := f.ancestors anchor
      ((f.subtree (rootOf f virtualRoot anchor)).takeWhile (· != anchor)).filter
        fun m => !ancestors.contains m

/-- Whether an attribute declares a namespace, as its name tells. -/
def declaresNamespace (f : Forest) (n : Node) : Bool :=
  f.name n == "xmlns" || f.qualifier? n == some "xmlns"

/-- The nodes that an axis reaches from a node. -/
def nodes (f : Forest) (virtualRoot : Option Node) (axis : Axis) (n : Node) : List Node :=
  match axis with
  | .self => [n]
  | .child => (f.children n).toList
  | .descendant => f.descendants n
  | .descendantOrSelf => f.subtree n
  | .attribute => (f.attributes n).toList.filter fun a => !declaresNamespace f a
  | .namespace => f.namespaceNodes n
  | .followingSibling => f.followingSiblings n
  | .following => followingOf f virtualRoot n
  | .parent => if isVirtualRoot virtualRoot n then [] else ((f.parent? n).map Node.item).toList
  | .ancestor => ancestorsOf f virtualRoot n
  | .ancestorOrSelf => n :: ancestorsOf f virtualRoot n
  | .precedingSibling => f.precedingSiblings n
  | .preceding => precedingOf f virtualRoot n

end Axis

end XPathAnnotator
