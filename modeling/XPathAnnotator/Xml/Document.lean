/-
**XML documents.**

A document is its root element with the comments and processing instructions around it. An element has
its attributes and namespace declarations in the order written, the text before its first child, and its
children, each with the text that follows it; so no two texts stand side by side. Names keep the
qualifier as written beside the URI of their namespace.

* `Document` — what a well-formed document is read as;
* `Element.withoutRemarks` — an element without comments, processing instructions and declarations, the
  texts around them joined.
-/

import XPathAnnotator.Name.Qualified

namespace XPathAnnotator.Xml

open XPathAnnotator.Name

/-- A name as written, with the URI of its namespace. -/
structure Tag where
  written : QName
  uri : String
deriving DecidableEq, Inhabited

/-- An attribute. -/
structure Attribute where
  tag : Tag
  value : String
deriving DecidableEq, Inhabited

/-- A comment or a processing instruction. -/
inductive Remark where
  | comment (text : String)
  | instruction (target data : String)
deriving DecidableEq, Inhabited

mutual

/-- An element: its name, declarations, attributes, the text before its first child, and its children,
each with the text after it. -/
inductive Element where
  | mk (tag : Tag) (declarations : List (String × String)) (attributes : List Attribute)
    (text : String) (children : List (Child × String))

/-- A child of an element. -/
inductive Child where
  | element (e : Element)
  | remark (r : Remark)

end

instance : Inhabited Element := ⟨.mk ⟨⟨none, ""⟩, ""⟩ [] [] "" []⟩

namespace Element

/-- The name of an element. -/
def tag : Element → Tag
  | mk tag _ _ _ _ => tag

end Element

/-- A document. -/
structure Document where
  before : List Remark
  root : Element
  after : List Remark

/-- Why a text is not accepted as a document. -/
inductive XmlError where
  | malformed
  | entityForbidden (name : String)
  | unparsedEntityForbidden (name : String)

/-- The wording of an error. -/
def XmlError.message : XmlError → String
  | malformed => "not well-formed"
  | entityForbidden name => "Entities are forbidden (entity_name=" ++ Text.quoted name ++ ")"
  | unparsedEntityForbidden name =>
    "Unparsed entities are forbidden (entity_name=" ++ Text.quoted name ++ ")"

mutual

/-- An element without comments, processing instructions and declarations. -/
def Element.withoutRemarks : Element → Element
  | .mk tag _ attributes text children =>
    let (text, children) := Element.joinAround text children
    .mk tag [] attributes text children

/-- The text and the children that are left when remarks are dropped from among children: what follows a
remark joins the text before it. -/
def Element.joinAround (text : String) : List (Child × String) → String × List (Child × String)
  | [] => (text, [])
  | (.remark _, tail) :: rest => Element.joinAround (text ++ tail) rest
  | (.element e, tail) :: rest =>
    let (tail, rest) := Element.joinAround tail rest
    (text, (.element e.withoutRemarks, tail) :: rest)

end

end XPathAnnotator.Xml
