/-
**Reading documents.**

`Document.read` reads a well-formed document with namespaces. Tags are matched with a stack of open
elements, each with the namespaces in scope; at a start tag the declarations are taken from its
attributes, and the names of the element and of the other attributes are resolved.

`Document.readSafely` first refuses documents that declare entities.
-/

import XPathAnnotator.Xml.Prolog

namespace XPathAnnotator.Xml

open XPathAnnotator.Name XPathAnnotator.Text

/-- The namespaces in scope: URIs by qualifier, the latest declaration first. -/
abbrev Bindings := List (String × String)

/-- The bindings that need no declaration. -/
def initialBindings : Bindings := [("xml", xmlUri)]

/-- Whether a declaration is allowed: the reserved qualifiers and URIs go together, only the default
namespace can be undeclared, and a URI holds no closing brace. -/
def isAllowedDeclaration (qualifier uri : String) : Bool :=
  if qualifier == "xmlns" then false
  else if qualifier == "xml" then uri == xmlUri
  else uri != xmlUri && uri != xmlnsUri && (qualifier.isEmpty || !uri.isEmpty) &&
    !uri.toList.contains '}'

/-- The declaration that an attribute makes: a qualifier and its URI. -/
def declarationOf? (name : QName) (value : String) : Option (String × String) :=
  match name.qualifier with
  | none => if name.localPart == "xmlns" then some ("", value) else none
  | some qualifier => if qualifier == "xmlns" then some (name.localPart, value) else none

/-- The URI of the name of an element. -/
def elementUri? (bindings : Bindings) (name : QName) : Option String :=
  match name.qualifier with
  | none => some ((bindings.lookup "").getD "")
  | some qualifier => bindings.lookup qualifier

/-- The URI of the name of an attribute, which is in no namespace without a qualifier. -/
def attributeUri? (bindings : Bindings) (name : QName) : Option String :=
  match name.qualifier with
  | none => some ""
  | some qualifier => bindings.lookup qualifier

/-- The attributes of a start tag, resolved. -/
def resolveAttributes? (bindings : Bindings) : List (QName × String) → Option (List Attribute)
  | [] => some []
  | (name, value) :: rest =>
    match attributeUri? bindings name, resolveAttributes? bindings rest with
    | some uri, some attributes => some (⟨⟨name, uri⟩, value⟩ :: attributes)
    | _, _ => none

/-- Whether a list has no element twice. -/
def allDistinct {α : Type} [BEq α] : List α → Bool
  | [] => true
  | a :: rest => !rest.contains a && allDistinct rest

/-- An open element: what is known of it so far, its children in reverse. -/
structure OpenElement where
  tag : Tag
  declarations : List (String × String)
  attributes : List Attribute
  bindings : Bindings
  text : String
  children : List (Child × String)

namespace OpenElement

/-- More text: it joins the text before it. -/
def addText (e : OpenElement) (more : String) : OpenElement :=
  match e.children with
  | [] => { e with text := e.text ++ more }
  | (child, tail) :: rest => { e with children := (child, tail ++ more) :: rest }

/-- One more child. -/
def addChild (e : OpenElement) (child : Child) : OpenElement :=
  { e with children := (child, "") :: e.children }

/-- The element when it is closed. -/
def close (e : OpenElement) : Element :=
  .mk e.tag e.declarations e.attributes e.text e.children.reverse

end OpenElement

/-- The attributes of a start tag up to its end: each after blanks. -/
def readAttributes? : Nat → List Char → Reading (List (QName × String))
  | 0, _ => none
  | fuel + 1, cs =>
    match cs with
    | '>' :: _ => some ([], cs)
    | '/' :: _ => some ([], cs)
    | _ =>
      match needBlanks? cs with
      | none => none
      | some cs =>
        match cs with
        | '>' :: _ => some ([], cs)
        | '/' :: _ => some ([], cs)
        | _ =>
          match readName? cs with
          | none => none
          | some (name, rest) =>
            match skipBlanks rest with
            | '=' :: rest =>
              match readQuoted? (skipBlanks rest) with
              | none => none
              | some (value, rest) =>
                (readAttributes? fuel rest).map fun (more, rest) => ((name, value) :: more, rest)
            | _ => none

/-- The element that a start tag opens, within the given bindings. -/
def openElement? (bindings : Bindings) (name : QName) (attributes : List (QName × String)) :
    Option OpenElement :=
  let declarations := attributes.filterMap fun (name, value) => declarationOf? name value
  let plain := attributes.filter fun (name, value) => (declarationOf? name value).isNone
  let inner := declarations.foldl (fun inner declaration => declaration :: inner) bindings
  if !allDistinct (attributes.map fun (name, _) => name) then none
  else if !declarations.all fun (qualifier, uri) => isAllowedDeclaration qualifier uri then none
  else
    match elementUri? inner name, resolveAttributes? inner plain with
    | some uri, some resolved =>
      if allDistinct (resolved.map fun a => (a.tag.uri, a.tag.written.localPart)) then
        some ⟨⟨name, uri⟩, declarations, resolved, inner, "", []⟩
      else none
    | _, _ => none

/-- A closed element is added to the one that it stands in; without one it is the root. -/
def closeInto (e : OpenElement) : List OpenElement → Element ⊕ List OpenElement
  | [] => .inl e.close
  | outer :: stack => .inr (outer.addChild (.element e.close) :: stack)

/-- The root element, from within its open elements, the innermost first. -/
def readContent? : Nat → List OpenElement → List Char → Reading Element
  | 0, _, _ => none
  | _, [], _ => none
  | fuel + 1, e :: stack, cs =>
    match cs with
    | '<' :: '!' :: '-' :: '-' :: rest =>
      match readComment? rest with
      | some (remark, rest) => readContent? fuel (e.addChild (.remark remark) :: stack) rest
      | none => none
    | '<' :: '!' :: rest =>
      match (expect? "[CDATA[" rest).bind (readUntil? [']', ']', '>']) with
      | some (text, rest) => readContent? fuel (e.addText (String.ofList text) :: stack) rest
      | none => none
    | '<' :: '?' :: rest =>
      match readInstruction? rest with
      | some (remark, rest) => readContent? fuel (e.addChild (.remark remark) :: stack) rest
      | none => none
    | '<' :: '/' :: rest =>
      match readName? rest with
      | none => none
      | some (name, rest) =>
        match skipBlanks rest with
        | '>' :: rest =>
          if name = e.tag.written then
            match closeInto e stack with
            | .inl root => some (root, rest)
            | .inr stack => readContent? fuel stack rest
          else none
        | _ => none
    | '<' :: rest =>
      match readName? rest with
      | none => none
      | some (name, rest) =>
        match readAttributes? (rest.length + 1) rest with
        | none => none
        | some (attributes, rest) =>
          match openElement? e.bindings name attributes with
          | none => none
          | some inner =>
            match rest with
            | '>' :: rest => readContent? fuel (inner :: e :: stack) rest
            | '/' :: '>' :: rest =>
              readContent? fuel (e.addChild (.element inner.close) :: stack) rest
            | _ => none
    | [] => none
    | cs =>
      match readText? [] (cs.length + 1) cs with
      | some (text, rest) => readContent? fuel (e.addText text :: stack) rest
      | none => none

/-- The root element of a document. -/
def readRoot? (cs : List Char) : Reading Element :=
  match cs with
  | '<' :: rest =>
    match readName? rest with
    | none => none
    | some (name, rest) =>
      match readAttributes? (rest.length + 1) rest with
      | none => none
      | some (attributes, rest) =>
        match openElement? initialBindings name attributes with
        | none => none
        | some root =>
          match rest with
          | '>' :: rest => readContent? (rest.length + 1) [root] rest
          | '/' :: '>' :: rest => some (root.close, rest)
          | _ => none
  | _ => none

/-- The document that a text is written for, none if it is not well-formed. -/
def Document.read (text : String) : Option Document :=
  let (cs, complete) := documentChars text
  let prolog := Prolog.read cs
  match prolog.rest.bind readRoot? with
  | none => none
  | some (root, rest) =>
    match readRemarks (rest.length + 1) rest with
    | (after, some []) => if complete then some ⟨prolog.remarks, root, after⟩ else none
    | _ => none

/-- The document that a text is written for, refused if it declares an entity. -/
def Document.readSafely (text : String) : Except XmlError Document :=
  match Prolog.forbidden? text with
  | some refusal => .error refusal
  | none =>
    match Document.read text with
    | some document => .ok document
    | none => .error .malformed

end XPathAnnotator.Xml
