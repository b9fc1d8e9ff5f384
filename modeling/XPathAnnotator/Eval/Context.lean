/-
**What an expression is evaluated in.**

Evaluation starts at a focus, a node with its position among the nodes it was selected with, in an
environment: the forest, the namespaces, functions and variables that are given, and how names are
compared. It runs in any monad that can fail with an `EvalError` and that is told of each element whose
namespaces are read; `Except EvalError` takes no note of it, `Remembering` makes the forest remember them.
-/

import XPathAnnotator.Expr.Basic
import XPathAnnotator.Pattern.Basic
import XPathAnnotator.Value.Basic

namespace XPathAnnotator

/-- Why an expression has no value. -/
inductive EvalError where
  /-- A node is needed where there is none. -/
  | noContextNode
  /-- The qualifier of a name has no URI. -/
  | unknownQualifier (qualifier : String)
  /-- No function has the name. -/
  | unknownFunction (name : String)
  /-- No variable has the name. -/
  | undeclaredVariable (name : String)
  /-- The arguments of a function are not those that it expects. -/
  | wrongArguments (name signature : String)
  /-- A value of another type stands where a node-set is needed. -/
  | notNodes (typeName : String)
  /-- Predicates or steps follow a value that is no node-set. -/
  | filterNotNodes
  /-- Data that a variable or a function gave are no value. -/
  | notConvertible (shown : String)
  /-- An integer that a variable or a function gave is beyond the largest number. -/
  | tooLarge
  /-- A regular expression cannot be used. -/
  | badPattern (error : PatternError)
deriving DecidableEq

/-- The wording of an evaluation error. -/
def EvalError.message : EvalError → String
  | noContextNode => "Context node not found"
  | unknownQualifier qualifier => "Cannot resolve QName prefix " ++ Text.quoted qualifier
  | unknownFunction name => "Unknown function " ++ name
  | undeclaredVariable name => "Undeclared variable: " ++ name
  | wrongArguments name signature => "Function " ++ name ++ " expects " ++ signature
  | notNodes typeName => "Cannot convert " ++ typeName ++ " to nodeset"
  | filterNotNodes =>
    "Path expression filter must evaluate to a nodeset if predicates or location path are used"
  | notConvertible shown => "Cannot convert " ++ shown ++ " to an XPath value"
  | tooLarge => "int too large to convert to float"
  | badPattern _ => "Invalid regular expression"

/-- A monad that expressions can be evaluated in. -/
class Evaluating (m : Type → Type) extends Monad m where
  /-- The evaluation that fails. -/
  fail : {α : Type} → EvalError → m α
  /-- Takes note that the namespaces in scope of an element are read. -/
  noteScope : Nat → m Unit

instance : Evaluating (Except EvalError) where
  fail := .error
  noteScope _ := .ok ()

/-- Evaluation that makes a forest remember the namespaces that are read. -/
abbrev Remembering := ExceptT EvalError (StateM Forest)

instance : Evaluating Remembering where
  fail e := throw e
  noteScope id := modify fun f => f.rememberScope id

/-- A node with its position among the nodes that it was selected with, and their number. -/
structure Focus where
  node : Option Node
  position : Int
  size : Int
deriving Inhabited

/-- The form of a focus in messages. -/
def Focus.shown (f : Forest) (focus : Focus) : String :=
  "XPathContext(context_node=" ++ (focus.node.map f.shown).getD "None" ++ ", context_position=" ++
    toString focus.position ++ ", context_size=" ++ toString focus.size ++ ")"

/-- An argument of a function: its expression, and its value at a focus. -/
structure Argument (m : Type → Type) where
  source : Expr
  value : Focus → m Value

/-- A function that expressions can call. -/
def Function (m : Type → Type) : Type := Forest → Focus → List (Argument m) → m Value

/-- What is given to the evaluation of an expression. -/
structure Environment (m : Type → Type) where
  /-- The nodes. -/
  forest : Forest
  /-- The URI that is given for a qualifier. -/
  givenUri? : String → Option String
  /-- Whether the namespaces in scope are looked up for the other qualifiers. -/
  usesScope : Bool
  /-- The function of a local name and a URI. -/
  functionNamed? : String → String → Option (Function m)
  /-- What a variable of a local name and a URI stands for. -/
  variableNamed? : String → String → Option Given
  /-- Whether names are compared without regard to case. -/
  ignoresCase : Bool
  /-- Whether names without qualifier stand for elements of all namespaces. -/
  anyNamespace : Bool
  /-- Whether names without qualifier also stand for elements of HTML. -/
  html : Bool
  /-- The node that stands for the root. -/
  virtualRoot : Option Node

variable {m : Type → Type} [Evaluating m]

open Evaluating

/-- The node of a focus. -/
def Focus.theNode (focus : Focus) : m Node :=
  match focus.node with
  | some n => pure n
  | none => fail .noContextNode

/-- The node-set that a value must be. -/
def Value.theNodes (value : Value) : m NodeSet :=
  match value with
  | .nodes set => pure set
  | value => fail (.notNodes value.typeName)

/-- The value that given data must convert to. -/
def Given.theValue (f : Forest) (given : Given) : m Value :=
  match given.toValue f with
  | .ok value => pure value
  | .error (.notConvertible shown) => fail (.notConvertible shown)
  | .error .tooLarge => fail .tooLarge

/-- The element that qualifiers are looked up on from a node: the nearest one, for a document its first. -/
def Forest.elementFor? (f : Forest) (n : Node) : Option Node :=
  if f.kind n == .document then f.documentElement? n
  else (n :: f.ancestors n).find? f.isElement

/-- The URI of a qualifier among the namespaces in scope of a node. -/
def scopeUri? (f : Forest) (qualifier : String) (node : Option Node) : m (Option String) :=
  if qualifier == "xml" then pure (some Name.xmlUri)
  else if qualifier == "xmlns" then pure (some Name.xmlnsUri)
  else match node.bind f.elementFor? with
    | some (.item id) => do
      noteScope id
      pure (f.lookupNamespace id qualifier)
    | _ => pure none

/-- The URI of a qualifier at a node. -/
def Environment.uriOf (env : Environment m) (qualifier : String) (node : Option Node) : m String := do
  match env.givenUri? qualifier with
  | some uri => pure uri
  | none =>
    let found ← if env.usesScope then scopeUri? env.forest qualifier node else pure none
    match found with
    | some uri => pure uri
    | none => fail (.unknownQualifier qualifier)

/-- The URI of a name at a node; a name without qualifier has none. -/
def Environment.uriOfName (env : Environment m) (name : Name.QName) (node : Option Node) : m String :=
  match name.qualifier with
  | none => pure ""
  | some qualifier => env.uriOf qualifier node

end XPathAnnotator
