/-
**Nodes and their surroundings.**

What can be asked of a node of a forest: its kind, names and string value, and the nodes around it.
Descendants come in document order without attributes; the string value of a document or an element is the
text below it.
-/

import XPathAnnotator.Tree.Scope

namespace XPathAnnotator

open XPathAnnotator.Name

namespace Forest

/-- The content of a node. -/
def content? (f : Forest) : Node → Option Content
  | .item id => (f.record? id).map NodeRecord.content
  | .binding owner index => ((f.bindings owner)[index]?).map fun (qualifier, uri) =>
      .namespace qualifier uri

/-- The kind of a node. -/
def kind (f : Forest) (n : Node) : NodeKind :=
  match n with
  | .item id => ((f.record? id).map fun record => record.content.kind).getD .text
  | .binding _ _ => .namespace

/-- The parent of a node; that of an attribute or namespace node is its element. -/
def parent? (f : Forest) : Node → Option Nat
  | .item id => (f.record? id).bind NodeRecord.parent
  | .binding owner _ => some owner

/-- The place of a node among its siblings, attributes or namespace nodes. -/
def index (f : Forest) : Node → Nat
  | .item id => ((f.record? id).map NodeRecord.index).getD 0
  | .binding _ index => index

/-- The tree that a node was built in. -/
def tree? (f : Forest) : Node → Option Nat
  | .item id => (f.record? id).bind NodeRecord.tree
  | .binding owner _ => (f.record? owner).bind NodeRecord.tree

/-- The position of a node in document order, for nodes of a tree that was built as a whole. -/
def position? (f : Forest) : Node → Option Nat
  | .item id => (f.record? id).bind NodeRecord.position
  | .binding _ _ => none

/-- Whether two nodes were built in one tree. -/
def isSameTree (f : Forest) (a b : Node) : Bool :=
  (f.tree? a).isSome && f.tree? a == f.tree? b

/-- The name of a node as written, empty for nodes without a name. -/
def name (f : Forest) (n : Node) : String :=
  match f.content? n with
  | some (.element data) => data.name.text
  | some (.attribute name _) => name.text
  | some (.namespace qualifier _) => qualifier
  | some (.instruction target _) => target
  | _ => ""

/-- The local part of the name of a node. -/
def localName (f : Forest) (n : Node) : String :=
  match f.content? n with
  | some (.element data) => data.name.localPart
  | some (.attribute name _) => name.localPart
  | some (.namespace qualifier _) => qualifier
  | some (.instruction target _) => target
  | _ => ""

/-- The qualifier of the name of a node. -/
def qualifier? (f : Forest) (n : Node) : Option String :=
  match f.content? n with
  | some (.element data) => data.name.qualifier
  | some (.attribute name _) => name.qualifier
  | _ => none

/-- The URI of the namespace of a node. -/
def uri (f : Forest) (n : Node) : String :=
  match f.content? n with
  | some (.element data) => data.name.uri
  | some (.attribute name _) => name.uri
  | _ => ""

/-- The children of a node. -/
def children (f : Forest) : Node → Array Node
  | .item id => ((f.record? id).map fun record => record.content.children).getD #[]
  | .binding _ _ => #[]

/-- The attributes of a node. -/
def attributes (f : Forest) : Node → Array Node
  | .item id => ((f.element? id).map ElementData.attributes).getD #[]
  | .binding _ _ => #[]

/-- The namespace nodes of a node. -/
def namespaceNodes (f : Forest) : Node → List Node
  | .item id => (List.range (f.bindings id).length).map fun index => .binding id index
  | .binding _ _ => []

/-- The descendants of a node down to a depth, in document order. -/
def descendantsWithin (f : Forest) : Nat → Node → List Node
  | 0, _ => []
  | depth + 1, n => (f.children n).toList.flatMap fun child => child :: f.descendantsWithin depth child

/-- The descendants of a node in document order. -/
def descendants (f : Forest) (n : Node) : List Node := f.descendantsWithin (f.nodes.size + 1) n

/-- A node and its descendants in document order. -/
def subtree (f : Forest) (n : Node) : List Node := n :: f.descendants n

/-- The texts below a node, in document order. -/
def texts (f : Forest) (n : Node) : List String :=
  (f.descendants n).filterMap fun descendant =>
    match f.content? descendant with
    | some (.text value) => some value
    | _ => none

/-- The string value of a node. -/
def stringValue (f : Forest) (n : Node) : String :=
  match f.content? n with
  | some (.document _ _) | some (.element _) => String.join (f.texts n)
  | some (.attribute _ value) => value
  | some (.namespace _ uri) => uri
  | some (.text value) => value
  | some (.comment value) => value
  | some (.instruction _ data) => data
  | none => ""

/-- The ancestors of a node, the nearest first, up to a number of them. -/
def ancestorsWithin (f : Forest) : Nat → Node → List Node
  | 0, _ => []
  | fuel + 1, n =>
    match f.parent? n with
    | none => []
    | some parent => .item parent :: f.ancestorsWithin fuel (.item parent)

/-- The ancestors of a node, the nearest first. -/
def ancestors (f : Forest) (n : Node) : List Node := f.ancestorsWithin (f.nodes.size + 1) n

/-- The root of the tree of a node. -/
def root (f : Forest) (n : Node) : Node := (f.ancestors n).getLastD n

/-- The sibling of a node at a distance among the children of its parent. -/
def nextSibling? (f : Forest) (n : Node) : Option Node :=
  if (f.kind n).isAttributeLike then none
  else match f.parent? n with
    | none => none
    | some parent => (f.children (.item parent))[f.index n + 1]?

/-- The sibling before a node. -/
def previousSibling? (f : Forest) (n : Node) : Option Node :=
  if (f.kind n).isAttributeLike || f.index n == 0 then none
  else match f.parent? n with
    | none => none
    | some parent => (f.children (.item parent))[f.index n - 1]?

/-- The nodes reached by repeating a step, up to a number of them. -/
def iterate (step : Node → Option Node) : Nat → Node → List Node
  | 0, _ => []
  | fuel + 1, n =>
    match step n with
    | none => []
    | some next => next :: iterate step fuel next

/-- The siblings after a node, the nearest first. -/
def followingSiblings (f : Forest) (n : Node) : List Node :=
  iterate f.nextSibling? f.nodes.size n

/-- The siblings before a node, the nearest first. -/
def precedingSiblings (f : Forest) (n : Node) : List Node :=
  iterate f.previousSibling? f.nodes.size n

/-- Whether a node is an element. -/
def isElement (f : Forest) (n : Node) : Bool := f.kind n == .element

/-- The first element among the children of a document. -/
def documentElement? (f : Forest) (n : Node) : Option Node :=
  (f.children n).find? f.isElement

/-- The document that a node stands in, none for the document itself. -/
def ownerDocument? (f : Forest) (n : Node) : Option Node :=
  let root := f.root n
  if root != n && f.kind root == .document then some root else none

/-- The value of the attribute of an element with a name as written. -/
def attributeNamed? (f : Forest) (n : Node) (name : String) : Option String :=
  ((f.attributes n).find? fun a => f.name a == name).map f.stringValue

/-- The value of the attribute of an element with a URI and a local name. -/
def attributeIn? (f : Forest) (n : Node) (uri localName : String) : Option String :=
  ((f.attributes n).find? fun a => f.localName a == localName && f.uri a == uri).map f.stringValue

/-- The first element of a document with an identifier: the value of its `id` or `xml:id`. -/
def elementById? (f : Forest) (document : Node) (value : String) : Option Node :=
  (f.descendants document).find? fun n =>
    f.isElement n && (f.attributeNamed? n "id" == some value || f.attributeNamed? n "xml:id" == some value)

/-- A node as shown in messages. -/
def shown (f : Forest) (n : Node) : String :=
  match f.content? n with
  | some (.document uri _) =>
    "DocumentNode(uri=" ++ (uri.map Text.quoted).getD "None" ++ ")"
  | some (.element data) => "ElementNode(name=" ++ Text.quoted data.name.text ++ ")"
  | some (.attribute name value) =>
    "AttributeNode(name=" ++ Text.quoted name.text ++ ", value=" ++ Text.quoted value ++ ")"
  | some (.namespace qualifier uri) =>
    "NamespaceNode(prefix=" ++ Text.quoted qualifier ++ ", uri=" ++ Text.quoted uri ++ ")"
  | some (.text value) => "TextNode(" ++ Text.quoted value ++ ")"
  | some (.comment value) => "CommentNode(" ++ Text.quoted value ++ ")"
  | some (.instruction target data) =>
    "ProcessingInstructionNode(" ++ Text.quoted target ++ ", " ++ Text.quoted data ++ ")"
  | none => ""

end Forest

end XPathAnnotator
