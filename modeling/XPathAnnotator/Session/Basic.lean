/-
**Sessions on trees.**

A session makes nodes, node-sets and search trees, gives them names, and asks about them. It keeps the
forest of all its nodes, so what one step changes a later one sees; a step that fails leaves what it has
done so far.

* `Session` — what a session keeps;
* `SessionError` — why a step fails;
* `Answer` — what a step answers.
-/

import XPathAnnotator.Eval.Options
import XPathAnnotator.Expr.Parser
import XPathAnnotator.NodeSet.Cells
import XPathAnnotator.Tree.Build

namespace XPathAnnotator

open XPathAnnotator.Data

/-- What a session keeps: its forest, the names given to nodes in their order, its sets, and its search trees, each by
the reference of the cell that it stands in. -/
structure Session where
  forest : Forest := .empty
  names : List (String × Node) := []
  sets : List (String × NodeSet) := []
  cells : Cells Node := #[]
  trees : List (String × Nat) := []

/-- Why a step of a session fails. -/
inductive SessionError where
  /-- Nothing has the name. -/
  | unknownName
  /-- There are not so many nodes. -/
  | noSuchItem
  /-- The thing has no such property, and no such step can be made with it. -/
  | notProvided
  | source (error : SourceError)
  | unreadable (source : String) (error : Expr.SyntaxError)
  | options (error : OptionError)
  | evaluation (error : EvalError)

/-- What a step of a session answers. -/
inductive Answer where
  | plain (value : Setting)
  | number (value : Float)
  /-- A node, by its name if it has one. -/
  | node (node : Option Node)
  /-- A node that has been given a name. -/
  | named (node : Node)
  | nodes (nodes : List Node)
  | tree (tree : Balanced Node)
  | value (value : Value)
  | list (answers : List Answer)
  | fields (entries : List (String × Answer))

/-- A step of a session. -/
abbrev SessionM := ExceptT SessionError (StateM Session)

namespace Session

/-- The name that was first given to a node. -/
def nameOf? (s : Session) (n : Node) : Option String :=
  (s.names.find? fun (_, other) => other == n).map Prod.fst

/-- The node that a name was last given to. -/
def node (name : String) : SessionM Node := do
  match (← get).names.reverse.lookup name with
  | some n => return n
  | none => throw .unknownName

/-- The set of a name. -/
def nodeSet (name : String) : SessionM NodeSet := do
  match (← get).sets.lookup name with
  | some set => return set
  | none => throw .unknownName

/-- The reference of the search tree of a name. -/
def searchTree (name : String) : SessionM Nat := do
  match (← get).trees.lookup name with
  | some tree => return tree
  | none => throw .unknownName

/-- The forest of the session. -/
def theForest : SessionM Forest := do return (← get).forest

/-- Keeps another forest. -/
def keepForest (f : Forest) : SessionM Unit := modify fun s => { s with forest := f }

/-- Keeps a set under a name. -/
def keepSet (name : String) (set : NodeSet) : SessionM Unit :=
  modify fun s => { s with sets := Datum.put name set s.sets }

/-- Plants a search tree of one node and keeps it under a name. -/
def plantTree (name : String) (n : Node) : SessionM Nat := do
  let (tree, cells) := (← get).cells.plant n
  modify fun s => { s with cells := cells, trees := Datum.put name tree s.trees }
  return tree

/-- Adds a node to a search tree, and tells whether it was not there yet. -/
def addToTree (tree : Nat) (n : Node) : SessionM Bool := do
  let (added, cells) := (← get).cells.add (← theForest).order tree n
  modify fun s => { s with cells := cells }
  return added

/-- A search tree as it stands now. -/
def treeAt (tree : Nat) : SessionM (Balanced Node) := do return (← get).cells.tree tree

/-- Gives a name to a node. -/
def giveName (name : String) (n : Node) : SessionM Answer := do
  modify fun s => { s with names := s.names ++ [(name, n)] }
  return .named n

/-- The number of a node that has a record. -/
def recordOf (n : Node) : SessionM Nat :=
  match n with
  | .item id => pure id
  | .binding _ _ => throw .notProvided

/-- The number of an element. -/
def elementOf (n : Node) : SessionM Nat := do
  if (← theForest).isElement n then recordOf n else throw .notProvided

/-- Makes an element remember the namespaces that it has in scope. -/
def readScope (n : Node) : SessionM Unit := do
  let f ← theForest
  match n with
  | .item id => if f.isElement n then keepForest (f.rememberScope id)
  | .binding _ _ => pure ()

/-- The value of an expression at a node, with a virtual root. -/
def evaluate (n : Node) (source : String) (virtualRoot : Option Node) : SessionM Value := do
  let e ← (Expr.read source).mapError fun e => SessionError.unreadable e.expression e.cause
  let f ← theForest
  let options : Options Remembering := { virtualRoot := virtualRoot.map VirtualRoot.within }
  let env ← (options.environment f).mapError SessionError.options
  let (result, f) := (e.evalIn env (Focus.start (some n))).run.run f
  keepForest f
  match result with
  | .ok value => return value
  | .error e => throw (.evaluation e)

end Session

end XPathAnnotator
