/-
**The axes of XPath.**

The thirteen directions in which a step moves from a node, with their names, the kind of node that a name
test means on each, and those that run backwards in document order.
-/

namespace XPathAnnotator

/-- A direction of a step. -/
inductive Axis where
  | self
  | child
  | descendant
  | descendantOrSelf
  | attribute
  | namespace
  | followingSibling
  | following
  | parent
  | ancestor
  | ancestorOrSelf
  | precedingSibling
  | preceding
deriving DecidableEq, Inhabited

/-- The seven kinds of nodes. -/
inductive NodeKind where
  | document
  | element
  | attribute
  | namespace
  | text
  | comment
  | instruction
deriving DecidableEq, Inhabited

namespace Axis

/-- All axes. -/
def all : List Axis :=
  [.self, .child, .descendant, .descendantOrSelf, .attribute, .namespace, .followingSibling, .following,
    .parent, .ancestor, .ancestorOrSelf, .precedingSibling, .preceding]

/-- The name of an axis. -/
def name : Axis → String
  | .self => "self"
  | .child => "child"
  | .descendant => "descendant"
  | .descendantOrSelf => "descendant-or-self"
  | .attribute => "attribute"
  | .namespace => "namespace"
  | .followingSibling => "following-sibling"
  | .following => "following"
  | .parent => "parent"
  | .ancestor => "ancestor"
  | .ancestorOrSelf => "ancestor-or-self"
  | .precedingSibling => "preceding-sibling"
  | .preceding => "preceding"

/-- The axis of a name. -/
def ofName? (name : String) : Option Axis :=
  all.find? fun axis => axis.name == name

/-- Whether an axis runs backwards in document order. -/
def isReverse : Axis → Bool
  | .ancestor | .ancestorOrSelf | .parent | .preceding | .precedingSibling => true
  | _ => false

/-- The kind of node that name tests select on an axis. -/
def principalKind : Axis → NodeKind
  | .attribute => .attribute
  | .namespace => .namespace
  | _ => .element

/-- The kind of node that name tests select on the axis of a name; for other names it is elements. -/
def principalKindOf (name : String) : NodeKind :=
  ((ofName? name).map principalKind).getD .element

end Axis

/-- The code of a kind of node in the document object model. -/
def NodeKind.code : NodeKind → Nat
  | .element => 1
  | .attribute => 2
  | .text => 3
  | .instruction => 7
  | .comment => 8
  | .document => 9
  | .namespace => 13

/-- The name of a kind of node. -/
def NodeKind.name : NodeKind → String
  | .document => "document"
  | .element => "element"
  | .attribute => "attribute"
  | .namespace => "namespace"
  | .text => "text"
  | .comment => "comment"
  | .instruction => "processing-instruction"

/-- Whether nodes of a kind belong to an element without being its children. -/
def NodeKind.isAttributeLike : NodeKind → Bool
  | .attribute | .namespace => true
  | _ => false

end XPathAnnotator
