/-
**Forests of nodes.**

Trees are kept together in one forest, an array of node records that refer to each other by their numbers.
A record holds the content of a node, its parent with its place there, and, for nodes of a tree that was
built as a whole, that tree and the position of the node in document order. Namespace nodes that come with
an element have no records: they are known by the element and their place among its bindings.

* `Node`, `Content`, `NodeRecord`, `Forest` — the data;
* `Forest.create`, `Forest.append?`, `Forest.setAttribute?`, `Forest.declare?` — making trees by hand.
-/

import XPathAnnotator.Axis.Basic
import XPathAnnotator.Data.Datum
import XPathAnnotator.Name.Qualified

namespace XPathAnnotator

/-- A node: a record of the forest, or a binding of a namespace that comes with an element. -/
inductive Node where
  | item (id : Nat)
  | binding (owner index : Nat)
deriving DecidableEq, Inhabited

/-- The name of an element or attribute. -/
structure NodeName where
  qualifier : Option String
  localPart : String
  uri : String
deriving DecidableEq, Inhabited

/-- The written form of a name; an empty qualifier is not written. -/
def NodeName.text (name : NodeName) : String :=
  match name.qualifier with
  | none => name.localPart
  | some qualifier =>
    if qualifier.isEmpty then name.localPart else qualifier ++ ":" ++ name.localPart

/-- URIs of namespaces by qualifier, where the empty qualifier is the default namespace. -/
abbrev NamespaceMap := List (String × String)

/-- What an element holds. The namespaces in scope are remembered once they have been read. -/
structure ElementData where
  name : NodeName
  declarations : NamespaceMap
  attributes : Array Node
  children : Array Node
  scope : Option NamespaceMap

/-- What a node is made of. -/
inductive Content where
  | document (uri : Option String) (children : Array Node)
  | element (data : ElementData)
  | attribute (name : NodeName) (value : String)
  | namespace (qualifier uri : String)
  | text (value : String)
  | comment (value : String)
  | instruction (target data : String)

instance : Inhabited Content := ⟨.text ""⟩

/-- A node of a forest: its content, its parent and its place there, the tree that it was built in and its
position in document order. -/
structure NodeRecord where
  content : Content
  parent : Option Nat
  index : Nat
  tree : Option Nat
  position : Option Nat
deriving Inhabited

/-- A tree that was built as a whole: its URI and its last position. -/
structure TreeStatus where
  uri : Option String
  total : Nat
deriving Inhabited

/-- Nodes by number, and trees by number. -/
structure Forest where
  nodes : Array NodeRecord
  trees : Array TreeStatus

namespace Content

/-- The kind of node that has a content. -/
def kind : Content → NodeKind
  | .document _ _ => .document
  | .element _ => .element
  | .attribute _ _ => .attribute
  | .namespace _ _ => .namespace
  | .text _ => .text
  | .comment _ => .comment
  | .instruction _ _ => .instruction

/-- The children that a content holds. -/
def children : Content → Array Node
  | .document _ children => children
  | .element data => data.children
  | _ => #[]

/-- A content with one more child, for documents and elements. -/
def addChild? (child : Node) : Content → Option Content
  | .document uri children => some (.document uri (children.push child))
  | .element data => some (.element { data with children := data.children.push child })
  | _ => none

end Content

/-- The content of an element without attributes and children. -/
def ElementData.fresh (name : NodeName) (declarations : NamespaceMap) : ElementData :=
  ⟨name, declarations, #[], #[], none⟩

namespace Forest

/-- The forest without nodes. -/
def empty : Forest := ⟨#[], #[]⟩

/-- The record of a number. -/
def record? (f : Forest) (id : Nat) : Option NodeRecord := f.nodes[id]?

/-- What an element of a number holds. -/
def element? (f : Forest) (id : Nat) : Option ElementData :=
  match f.record? id with
  | some ⟨.element data, _, _, _, _⟩ => some data
  | _ => none

/-- A forest with one more node, and its number. -/
def create (f : Forest) (content : Content) : Forest × Nat :=
  ({ f with nodes := f.nodes.push ⟨content, none, 0, none, none⟩ }, f.nodes.size)

/-- A forest with the record of a node changed. -/
def update (f : Forest) (id : Nat) (change : NodeRecord → NodeRecord) : Forest :=
  { f with nodes := f.nodes.modify id change }

/-- A forest with what an element holds changed. -/
def updateElement (f : Forest) (id : Nat) (change : ElementData → ElementData) : Forest :=
  f.update id fun record =>
    match record.content with
    | .element data => { record with content := .element (change data) }
    | _ => record

/-- Puts a node behind the children of a document or an element. -/
def append? (f : Forest) (parent : Nat) (child : Node) : Option Forest :=
  match f.record? parent with
  | none => none
  | some record =>
    match record.content.addChild? child with
    | none => none
    | some content =>
      let index := record.content.children.size
      let f := f.update parent fun record => { record with content := content }
      match child with
      | .item id => some (f.update id fun record => { record with parent := some parent, index := index })
      | .binding _ _ => some f

/-- Puts an attribute behind those of an element. -/
def setAttribute? (f : Forest) (owner : Nat) (name : NodeName) (value : String) :
    Option (Forest × Nat) :=
  match f.element? owner with
  | none => none
  | some data =>
    let (f, id) := f.create (.attribute name value)
    let f := f.update id fun record =>
      { record with parent := some owner, index := data.attributes.size }
    some (f.updateElement owner fun data =>
      { data with attributes := data.attributes.push (.item id) }, id)

/-- Declares a namespace on an element. -/
def declare? (f : Forest) (owner : Nat) (qualifier uri : String) : Option Forest :=
  match f.element? owner with
  | none => none
  | some _ =>
    some (f.updateElement owner fun data =>
      { data with declarations := Data.Datum.put qualifier uri data.declarations })

end Forest

end XPathAnnotator
