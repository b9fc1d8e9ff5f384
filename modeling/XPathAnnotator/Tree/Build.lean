/-
**Building trees from documents.**

A document becomes a tree of nodes numbered in document order: the document, then every element followed
by its attributes, its text and its children. The qualifiers of attributes, and on request those of
elements, are the first ones that the namespaces in scope have for their URIs; then the data of
processing instructions also lose the spaces before them.

* `Forest.buildStep`, `Forest.buildWhole` — the conversion of an element, with the open elements on a stack;
* `Forest.buildRoot`, `Forest.buildDocument` — whole trees;
* `TreeSource`, `Forest.build` — the ways in which a text is read and turned into a tree;
* `Forest.addSource` — a text given as a document, which must begin with markup, after spaces; any other text
  would be the name of a file.
-/

import XPathAnnotator.Tree.Walk
import XPathAnnotator.Xml.Reader

namespace XPathAnnotator

open XPathAnnotator.Xml

/-- Where the qualifiers of element names come from: as written, or from the namespaces in scope. The data
of processing instructions are as written too, or without the spaces at their start. -/
inductive Naming where
  | asWritten
  | fromScope
deriving DecidableEq

namespace Forest

/-- Numbers a node as the next one of a tree. -/
def place (f : Forest) (tree id : Nat) : Forest :=
  let position := (f.trees.getD tree default).total + 1
  let f := f.update id fun record => { record with tree := some tree, position := some position }
  { f with trees := f.trees.modify tree fun status => { status with total := position } }

/-- Puts a new node behind the children of a parent, as the next one of a tree. -/
def addPlaced (f : Forest) (tree : Nat) (parent : Option Nat) (content : Content) : Forest × Nat :=
  let (f, id) := f.create content
  let f := match parent with
    | some parent => (f.append? parent (.item id)).getD f
    | none => f
  (f.place tree id, id)

/-- Adds a text unless it is empty. -/
def addText (f : Forest) (tree parent : Nat) (text : String) : Forest :=
  if text.isEmpty then f else (f.addPlaced tree (some parent) (.text text)).1

/-- The content of the node of a comment or a processing instruction. -/
def remarkContent (naming : Naming) : Remark → Content
  | .comment text => .comment text
  | .instruction target data =>
    match naming with
    | .asWritten => .instruction target data
    | .fromScope => .instruction target (Text.trimStartBy Text.isSpace data)

/-- Adds a comment or a processing instruction. -/
def addRemark (f : Forest) (tree : Nat) (naming : Naming) (parent : Nat) (remark : Remark) : Forest :=
  (f.addPlaced tree (some parent) (remarkContent naming remark)).1

/-- Adds the attributes of an element, with the namespaces in scope. -/
def addAttributes (f : Forest) (tree owner : Nat) (scope : NamespaceMap) (attributes : List Attribute) :
    Forest :=
  attributes.foldl (fun f a =>
    let name : NodeName := ⟨scope.qualifierFor a.tag.uri true, a.tag.written.localPart, a.tag.uri⟩
    match f.setAttribute? owner name a.value with
    | some (f, id) => f.place tree id
    | none => f) f

/-- The name of the node of an element. -/
def elementName (naming : Naming) (scope : NamespaceMap) (tag : Tag) : NodeName :=
  match naming with
  | .asWritten => ⟨tag.written.qualifier, tag.written.localPart, tag.uri⟩
  | .fromScope =>
    ⟨if tag.uri.isEmpty then none else scope.qualifierFor tag.uri false, tag.written.localPart, tag.uri⟩

/-- Adds an element itself, with its attributes. -/
def openElement (f : Forest) (tree : Nat) (naming : Naming) (parent : Option Nat) (tag : Tag)
    (declarations : NamespaceMap) (attributes : List Attribute) : Forest × Nat :=
  let outer : NamespaceMap := match parent with
    | some parent => f.scope parent
    | none => []
  let scope := outer.extend declarations
  let data : ElementData :=
    { name := elementName naming scope tag
      declarations := declarations
      attributes := #[]
      children := #[]
      scope := some scope }
  let (f, id) := f.addPlaced tree parent (.element data)
  (f.addAttributes tree id scope attributes, id)

/-- An element whose children are being added: its node, the children that are left, each with the text after it,
and the text after the element itself. -/
structure Frame where
  node : Nat
  rest : List (Child × String)
  tail : String

mutual

/-- How many steps it takes to add what an element holds. -/
def stepsWithin : Element → Nat
  | .mk _ _ _ _ children => stepsFor children

/-- How many steps it takes to add children: one for a remark, and two for an element beside those within it. -/
def stepsFor : List (Child × String) → Nat
  | [] => 0
  | (.remark _, _) :: rest => stepsFor rest + 1
  | (.element e, _) :: rest => stepsWithin e + stepsFor rest + 2

end

/-- How many steps are left when elements stand open, the innermost first: each one is left in the end. -/
def stepsLeft : List Frame → Nat
  | [] => 0
  | frame :: outer => stepsFor frame.rest + 1 + stepsLeft outer

/-- One step at the innermost open element: its next child is added, or the element is left and the text after it
added. The text after the outermost element does not belong to the tree. -/
def buildStep (tree : Nat) (naming : Naming) (f : Forest) (frame : Frame) (outer : List Frame) :
    Forest × List Frame :=
  match frame.rest with
  | [] =>
    match outer with
    | [] => (f, [])
    | around :: _ => (f.addText tree around.node frame.tail, outer)
  | (.remark remark, tail) :: rest =>
    ((f.addRemark tree naming frame.node remark).addText tree frame.node tail, { frame with rest } :: outer)
  | (.element (.mk tag declarations attributes text children), tail) :: rest =>
    let (f, id) := f.openElement tree naming (some frame.node) tag declarations attributes
    (f.addText tree id text, ⟨id, children, tail⟩ :: { frame with rest } :: outer)

theorem stepsLeft_buildStep (tree : Nat) (naming : Naming) (f : Forest) (frame : Frame) (outer : List Frame) :
    stepsLeft (buildStep tree naming f frame outer).2 < stepsLeft (frame :: outer) := by
  obtain ⟨node, rest, tail⟩ := frame
  match rest with
  | [] =>
    cases outer <;> simp [buildStep, stepsLeft, stepsFor]
  | (.remark remark, after) :: rest =>
    simp [buildStep, stepsLeft, stepsFor]
  | (.element (.mk tag declarations attributes text children), after) :: rest =>
    simp [buildStep, stepsLeft, stepsFor, stepsWithin]
    omega

/-- Adds what open elements still hold, without recursion into elements: the open ones are kept on a stack. -/
def buildOpen (tree : Nat) (naming : Naming) (f : Forest) (frames : List Frame) : Forest :=
  match frames with
  | [] => f
  | frame :: outer =>
    let next := buildStep tree naming f frame outer
    buildOpen tree naming next.1 next.2
termination_by stepsLeft frames
decreasing_by exact stepsLeft_buildStep tree naming f frame outer

/-- Adds an element with all that it holds. -/
def buildWhole (f : Forest) (tree : Nat) (naming : Naming) (parent : Option Nat) : Element → Forest × Nat
  | .mk tag declarations attributes text children =>
    let (f, id) := f.openElement tree naming parent tag declarations attributes
    (buildOpen tree naming (f.addText tree id text) [⟨id, children, ""⟩], id)

/-- A forest with one more tree, and its number. -/
def plant (f : Forest) (uri : Option String) : Forest × Nat :=
  ({ f with trees := f.trees.push ⟨uri, 0⟩ }, f.trees.size)

/-- Adds the tree of an element without a document. -/
def buildRoot (f : Forest) (naming : Naming) (uri : Option String) (root : Element) : Forest × Nat :=
  let (f, tree) := f.plant uri
  f.buildWhole tree naming none root

/-- Adds the tree of a document with the remarks around its root element. -/
def buildDocument (f : Forest) (naming : Naming) (uri : Option String) (document : Xml.Document) :
    Forest × Nat :=
  let (f, tree) := f.plant uri
  let (f, id) := f.addPlaced tree none (.document uri #[])
  let f := document.before.foldl (fun f remark => f.addRemark tree naming id remark) f
  let (f, _) := f.buildWhole tree naming (some id) document.root
  (document.after.foldl (fun f remark => f.addRemark tree naming id remark) f, id)

end Forest

mutual

/-- An element of which only the declarations that change something are left; `inherited` holds those of
the elements around it, the nearest first. -/
def Xml.Element.withChangedDeclarations (inherited : NamespaceMap) : Element → Element
  | .mk tag declarations attributes text children =>
    let own := declarations.filter fun (qualifier, _) => qualifier != "xml"
    let changed := own.filter fun (qualifier, uri) => inherited.lookup qualifier != some uri
    .mk tag changed attributes text
      (Xml.Element.childrenWithChangedDeclarations (own ++ inherited) children)

/-- The same for the children of an element. -/
def Xml.Element.childrenWithChangedDeclarations (inherited : NamespaceMap) :
    List (Child × String) → List (Child × String)
  | [] => []
  | (.remark remark, tail) :: rest =>
    (.remark remark, tail) :: Xml.Element.childrenWithChangedDeclarations inherited rest
  | (.element e, tail) :: rest =>
    (.element (e.withChangedDeclarations inherited), tail) ::
      Xml.Element.childrenWithChangedDeclarations inherited rest

end

/-- An element with declarations put in place of its own. -/
def Xml.Element.declaring (declarations : NamespaceMap) : Element → Element
  | .mk tag _ attributes text children => .mk tag declarations attributes text children

/-- What a tree is made of: a document with comments and processing instructions inside its root element;
only the elements and texts, with given declarations on the root; or all that was written, with names as
written. The last two come with or without a document node. -/
inductive TreeSource where
  | parsed
  | plain (withDocument : Bool) (namespaces : NamespaceMap)
  | written (withDocument : Bool)

/-- Adds the tree of a document that has been read. -/
def Forest.build (f : Forest) (source : TreeSource) (uri : Option String) (document : Xml.Document) :
    Forest × Nat :=
  match source with
  | .parsed => f.buildDocument .fromScope uri ⟨[], document.root, []⟩
  | .plain withDocument namespaces =>
    let root := document.root.withoutRemarks.declaring (NamespaceMap.erase "xml" namespaces)
    if withDocument then f.buildDocument .fromScope uri ⟨[], root, []⟩
    else f.buildRoot .fromScope uri root
  | .written withDocument =>
    let root := document.root.withChangedDeclarations []
    if withDocument then f.buildDocument .asWritten uri { document with root := root }
    else f.buildRoot .asWritten uri root

/-! ### Documents as texts -/

/-- Why a text gives no tree. -/
inductive SourceError where
  /-- The text is the name of a file, and there is no such file. -/
  | missingFile
  | xml (error : Xml.XmlError)

/-- Whether a text begins with markup. -/
def startsWithMarkup (text : String) : Bool :=
  (text.toList.dropWhile Text.isSpace).head? == some '<'

/-- Adds the tree of a document that is known to be markup, and gives its document node. -/
def Forest.addDocument (f : Forest) (uri : Option String) (text : String) :
    Except Xml.XmlError (Forest × Node) := do
  let document ← Xml.Document.readSafely text
  let (f, id) := f.build .parsed uri document
  return (f, .item id)

/-- Adds the tree of a document that is given as a text. -/
def Forest.addSource (f : Forest) (uri : Option String) (text : String) :
    Except SourceError (Forest × Node) :=
  if startsWithMarkup text then (f.addDocument uri text).mapError .xml else .error .missingFile

end XPathAnnotator
