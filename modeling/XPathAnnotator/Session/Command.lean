/-
**Commands of sessions.**

`Session.perform` makes a step that is given by the name of a command and its arguments: making nodes and
giving them names, joining them to trees, asking about them, and working with search trees and node-sets.
Arguments at the end may be left out.
-/

import XPathAnnotator.Session.Property

namespace XPathAnnotator.Session

open XPathAnnotator.Data

/-- The text that a setting is, if it is one. -/
def text? : Setting → Option String
  | .text value => some value
  | _ => none

/-- The integer that a setting is, zero if it is none. -/
def integerOf : Setting → Int
  | .integer value => value
  | _ => 0

/-- The mapping of texts that a setting is. -/
def mapOf : Setting → NamespaceMap
  | .mapping entries => entries.map fun (k, v) => (k, (text? v).getD "")
  | _ => []

/-- Arguments by their places. -/
structure Arguments where
  all : List Setting

namespace Arguments

/-- The argument at a place, null if it has been left out. -/
def argument (a : Arguments) (k : Nat) : Setting := a.all.getD k .null

/-- The text at a place, empty if there is none. -/
def text (a : Arguments) (k : Nat) : String := (text? (a.argument k)).getD ""

/-- The node whose name stands at a place. -/
def node (a : Arguments) (k : Nat) : SessionM Node := Session.node (a.text k)

/-- The node whose name stands at a place, if a name stands there. -/
def node? (a : Arguments) (k : Nat) : SessionM (Option Node) := do
  if a.argument k matches .null then return none else return some (← a.node k)

/-- The nodes whose names stand from a place on. -/
def nodesFrom (a : Arguments) (k : Nat) : SessionM (List Node) :=
  (a.all.drop k).mapM fun name => Session.node ((text? name).getD "")

/-- A name of which the local part, the qualifier and the URI stand at places. -/
def name (a : Arguments) (localPart qualifier uri : Nat) : NodeName :=
  ⟨text? (a.argument qualifier), a.text localPart, a.text uri⟩

end Arguments

/-- The item of a list at an index, which counts from the end if it is negative. -/
def itemAt? {α : Type} (items : List α) (index : Int) : Option α :=
  if 0 ≤ index then items[index.toNat]?
  else if -index ≤ items.length then items[(items.length + index).toNat]?
  else none

/-- The item of a list at an index, which must be there. -/
def theItem {α : Type} (items : List α) (index : Int) : SessionM α :=
  match itemAt? items index with
  | some item => pure item
  | none => throw .noSuchItem

/-- Makes a node of a content and gives it a name. -/
def make (name : String) (content : Content) : SessionM Answer := do
  let (f, id) := (← theForest).create content
  keepForest f
  giveName name (.item id)

/-- Makes a node, or joins it to others, as a command says; none for commands of other kinds. -/
def construct? (command : String) (a : Arguments) : Option (SessionM Answer) :=
  match command with
  | "parse" => some do
    let (f, root) ← ((← theForest).addSource none (a.text 1)).mapError SessionError.source
    keepForest f
    giveName (a.text 0) root
  | "document" => some (make (a.text 0) (.document (text? (a.argument 1)) #[]))
  | "element" =>
    some (make (a.text 0) (.element (ElementData.fresh (a.name 1 2 3) (mapOf (a.argument 4)))))
  | "text" => some (make (a.text 0) (.text (a.text 1)))
  | "comment" => some (make (a.text 0) (.comment (a.text 1)))
  | "pi" => some (make (a.text 0) (.instruction (a.text 1) (a.text 2)))
  | "attribute" => some (make (a.text 0) (.attribute (a.name 1 3 4) (a.text 2)))
  | "namespace" => some (make (a.text 0) (.namespace (a.text 1) (a.text 2)))
  | "pick" => some do
    match ← evaluate (← a.node 1) (a.text 2) none with
    | .nodes set =>
      giveName (a.text 0) (← theItem (set.toList (← theForest)) (integerOf (a.argument 3)))
    | value => throw (.evaluation (.notNodes value.typeName))
  | "nsnode" => some do
    let n ← a.node 1
    readScope n
    giveName (a.text 0) (← theItem ((← theForest).namespaceNodes n) (integerOf (a.argument 2)))
  | "set_attribute" => some do
    let owner ← elementOf (← a.node 1)
    match (← theForest).setAttribute? owner (a.name 2 4 5) (a.text 3) with
    | some (f, id) =>
      keepForest f
      giveName (a.text 0) (.item id)
    | none => throw .notProvided
  | "append" => some do
    let parent ← a.node 0
    let child ← a.node 1
    match (← theForest).append? (← recordOf parent) child with
    | some f =>
      keepForest f
      return .list [ofNat (f.index child), ofNat (f.children parent).size]
    | none => throw .notProvided
  | "declare" => some do
    let n ← a.node 0
    match (← theForest).declare? (← elementOf n) (a.text 1) (a.text 2) with
    | some f =>
      keepForest f
      property n "declarations"
    | none => throw .notProvided
  | _ => none

/-- The number that stands for an order. -/
def orderNumber : Ordering → Int
  | .lt => -1
  | .eq => 0
  | .gt => 1

/-- Asks about nodes, as a command says; none for commands of other kinds. -/
def ask? (command : String) (a : Arguments) : Option (SessionM Answer) :=
  match command with
  | "get" => some do
    let n ← a.node 0
    return .list (← (a.all.drop 1).mapM fun name => property n ((text? name).getD ""))
  | "repr" => some do
    let n ← a.node 0
    return .plain (.text ((← theForest).shown n))
  | "iter" => some do
    let n ← a.node 0
    let f ← theForest
    let withSelf := a.argument 1 matches .null || (a.argument 1).isGiven
    return .nodes (if withSelf then f.subtree n else f.descendants n)
  | "iter_text" => some do
    let n ← a.node 0
    let f ← theForest
    match f.kind n with
    | .document | .element => return .plain (.list ((f.texts n).map Datum.text))
    | _ => throw .notProvided
  | "call" => some do lookUp (← a.node 0) (a.text 1) (a.all.drop 2)
  | "same_tree" => some do
    let n ← a.node 0
    let other ← a.node 1
    return .plain (.truth ((← theForest).isSameTree n other))
  | "order" => some do
    let nodes ← a.nodesFrom 0
    let f ← theForest
    return .plain (.list (nodes.map fun n =>
      .list (nodes.map fun other => .integer (orderNumber (f.order n other)))))
  | "axis" => some do
    let n ← a.node 0
    let virtualRoot ← a.node? 2
    match Axis.ofName? (a.text 1) with
    | none => throw .unknownName
    | some axis =>
      if axis == .namespace then readScope n
      return .nodes (axis.nodes (← theForest) virtualRoot n)
  | "eval" => some do
    let n ← a.node 0
    return .value (← evaluate n (a.text 1) (← a.node? 2))
  | "context" => some do
    if a.text 0 == "none" || a.argument 0 matches .null then throw (.evaluation .noContextNode)
    let n ← a.node 0
    let f ← theForest
    let focus : Focus := ⟨some n, integerOf (a.argument 1), integerOf (a.argument 2)⟩
    return .list [.plain (.text (focus.shown f)), .node (some n), .node (some (f.root n))]
  | _ => none

/-- Works with a search tree, as a command says; none for commands of other kinds. -/
def sort? (command : String) (a : Arguments) : Option (SessionM Answer) :=
  match command with
  | "avl_new" => some do
    let tree ← plantTree (a.text 0) (← a.node 1)
    return .tree (← treeAt tree)
  | "avl_add" => some do
    let tree ← searchTree (a.text 0)
    let added ← addToTree tree (← a.node 1)
    return .list [.plain (.truth added), .tree (← treeAt tree)]
  | "avl_list" => some do
    let tree ← treeAt (← searchTree (a.text 0))
    return .list [.plain (.text (tree.shown (← theForest).shown)), ofNat tree.toList.length,
      .nodes tree.toList]
  | _ => none

/-- A node-set in all its forms. -/
def showSet (f : Forest) (set : NodeSet) : Answer :=
  .fields [
    ("repr", .plain (.text (set.shown f))),
    ("size", ofNat set.size),
    ("list", .nodes (set.toList f)),
    ("unsorted", .nodes set.inOrderOfAddition),
    ("strings", .plain (.list ((set.stringValues f).map Datum.text))),
    ("string", .plain (.text (set.stringValue f))),
    ("number", .number ((Value.nodes set).toNumber f)),
    ("boolean", .plain (.truth (Value.nodes set).toTruth)),
    ("tree", .tree (set.tree.getD .empty))]

/-- Works with a node-set, as a command says; none for commands of other kinds. -/
def collect? (command : String) (a : Arguments) : Option (SessionM Answer) :=
  match command with
  | "set_new" => some do
    let set := NodeSet.ofList (← a.nodesFrom 1)
    keepSet (a.text 0) set
    return ofNat set.size
  | "set_union" => some do
    let left ← nodeSet (a.text 1)
    let set := left.union (← nodeSet (a.text 2))
    keepSet (a.text 0) set
    return ofNat set.size
  | "set_add" => some do
    let set ← nodeSet (a.text 0)
    let set := set.addAll (← a.nodesFrom 1)
    keepSet (a.text 0) set
    return .list [ofNat set.size, .plain (.truth set.tree.isNone)]
  | "set_first" => some do
    let set ← nodeSet (a.text 0)
    let f ← theForest
    keepSet (a.text 0) (set.listed f)
    return .node (set.first? f)
  | "set_has" => some do
    let set ← nodeSet (a.text 0)
    return .plain (.truth (set.contains (← a.node 1)))
  | "set_show" => some do
    let f ← theForest
    let set := (← nodeSet (a.text 0)).listed f
    keepSet (a.text 0) set
    return showSet f set
  | _ => none

/-- Makes a step. -/
def perform (command : String) (arguments : List Setting) : SessionM Answer :=
  let a : Arguments := ⟨arguments⟩
  match construct? command a <|> ask? command a <|> sort? command a <|> collect? command a with
  | some step => step
  | none => throw .notProvided

/-- Makes steps one after the other, each failing or not, and gives their answers with the session after
each. -/
def performAll : Session → List (String × List Setting) → List (Session × Except SessionError Answer)
  | _, [] => []
  | s, (command, arguments) :: rest =>
    let (answer, s) := (perform command arguments).run.run s
    (s, answer) :: performAll s rest

end XPathAnnotator.Session
