/-
**Properties of nodes by name.**

What a node can be asked for in a session: its names, values, position and neighbours, the namespaces of
an element, and the look-ups that elements and documents offer. What a kind of node does not have is
refused.
-/

import XPathAnnotator.Session.Basic

namespace XPathAnnotator.Session

open XPathAnnotator.Data

/-- The answer of a text, or of none. -/
def optionalText (text : Option String) : Answer := .plain ((text.map Datum.text).getD .null)

/-- The answer of a number. -/
def ofNat (n : Nat) : Answer := .plain (.integer n)

/-- The answer of a mapping of texts. -/
def ofMap (map : NamespaceMap) : Answer := .plain (.mapping (map.map fun (k, v) => (k, .text v)))

/-- The URI of a node that keeps one. -/
def uriOf? (f : Forest) (n : Node) : Option (Option String) :=
  match f.content? n with
  | some (.document uri _) => some uri
  | some (.namespace _ uri) => some (some uri)
  | _ => none

/-- The value of a node that keeps one. -/
def valueOf? (f : Forest) (n : Node) : Option String :=
  match f.content? n with
  | some (.attribute _ value) | some (.text value) | some (.comment value)
  | some (.instruction _ value) => some value
  | _ => none

/-- The parent of a node. -/
def parentOf (f : Forest) (n : Node) : Option Node := (f.parent? n).map Node.item

/-- The properties that nodes of all kinds have. -/
def common? (f : Forest) (n : Node) : String → Option Answer
  | "node_kind" => some (.plain (.text (f.kind n).name))
  | "node_type" => some (ofNat (f.kind n).code)
  | "name" => some (.plain (.text (f.name n)))
  | "local_name" => some (.plain (.text (f.localName n)))
  | "prefix" => some (optionalText (f.qualifier? n))
  | "namespace_uri" => some (.plain (.text (f.uri n)))
  | "string_value" => some (.plain (.text (f.stringValue n)))
  | "index" => some (ofNat (f.index n))
  | "position" => some (.plain (((f.position? n).map fun p => .integer p).getD .null))
  | "parent" => some (.node (parentOf f n))
  | "children" => some (.nodes (f.children n).toList)
  | "attributes" => some (.nodes (f.attributes n).toList)
  | "owner_element" => some (.node (if (f.kind n).isAttributeLike then parentOf f n else none))
  | "root_node" => some (.node (some (f.root n)))
  | "owner_document" => some (.node (f.ownerDocument? n))
  | "first_child" => some (.node (f.children n).toList.head?)
  | "last_child" => some (.node (f.children n).toList.getLast?)
  | "next_sibling" => some (.node (f.nextSibling? n))
  | "previous_sibling" => some (.node (f.previousSibling? n))
  | _ => none

/-- A property of a node. -/
def property (n : Node) (name : String) : SessionM Answer := do
  let f ← theForest
  match name with
  | "namespace_nodes" =>
    readScope n
    return .nodes ((← theForest).namespaceNodes n)
  | "nsmap" =>
    let id ← elementOf n
    readScope n
    return ofMap ((← theForest).scope id)
  | "declarations" =>
    let id ← elementOf n
    return ofMap (((f.element? id).map ElementData.declarations).getD [])
  | "xml_id" =>
    let _ ← elementOf n
    return optionalText (f.attributeNamed? n "xml:id")
  | "document_element" =>
    if f.kind n == .document then return .node (f.documentElement? n) else throw .notProvided
  | "uri" =>
    match uriOf? f n with
    | some uri => return optionalText uri
    | none => throw .notProvided
  | "value" =>
    match valueOf? f n with
    | some value => return .plain (.text value)
    | none => throw .notProvided
  | "target" =>
    match f.content? n with
    | some (.instruction target _) => return .plain (.text target)
    | _ => throw .notProvided
  | name =>
    match common? f n name with
    | some answer => return answer
    | none => throw .notProvided

/-- The answer of a text that is looked for, or of what stands for it if it is missing. -/
def orDefault (found : Option String) (missing : List Setting) : Answer :=
  .plain ((found.map Datum.text).getD (missing.headD .null))

/-- A look-up that elements and documents offer, with its arguments. -/
def lookUp (n : Node) (name : String) (arguments : List Setting) : SessionM Answer := do
  let f ← theForest
  match name, arguments with
  | "lookup_namespace", [.text qualifier] =>
    let id ← elementOf n
    if qualifier != "xml" then readScope n
    return optionalText ((← theForest).lookupNamespace id qualifier)
  | "get_attribute", .text key :: missing =>
    let _ ← elementOf n
    return orDefault (f.attributeNamed? n key) missing
  | "get_attribute_ns", .text uri :: .text key :: missing =>
    let _ ← elementOf n
    return orDefault (f.attributeIn? n uri key) missing
  | "get_element_by_id", [.text value] =>
    if f.kind n == .document then return .node (f.elementById? n value) else throw .notProvided
  | _, _ => throw .notProvided

end XPathAnnotator.Session
