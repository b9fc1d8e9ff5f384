/-
**Evaluation of expressions.**

`Expr.evalIn` gives the value of an expression in an environment at a focus. A location path starts at the
node of the focus, or at the root, and each step turns a list of distinct nodes into another one. The
predicates of a step see the nodes in document order, or in reverse order on the axes that run backwards,
and each predicate sees only the nodes that the ones before it have kept.
-/

import XPathAnnotator.Axis.Walk
import XPathAnnotator.Eval.NodeTest
import XPathAnnotator.Value.Compare

namespace XPathAnnotator

open Evaluating

variable {m : Type → Type} [Evaluating m]

/-- Whether a predicate with a value keeps the node at a position: a number must be the position. -/
def Value.keeps (value : Value) (position : Int) : Bool :=
  match value with
  | .number x => Float.ofInt position == x
  | value => value.toTruth

/-- The nodes of a list that are kept, where the first one stands at a position. -/
def keepFrom (keeps : Node → Int → m Bool) (position : Int) : List Node → m (List Node)
  | [] => pure []
  | n :: rest => do
    if ← keeps n position then return n :: (← keepFrom keeps (position + 1) rest)
    else keepFrom keeps (position + 1) rest

/-- The distinct nodes that a step gives for a list of nodes. -/
def stepFromEach (step : Node → m (List Node)) (found : NodeSet) : List Node → m NodeSet
  | [] => pure found
  | n :: rest => do stepFromEach step (found.addAll (← step n)) rest

/-- The nodes of a list in document order, or in reverse document order. -/
def inAxisOrder (f : Forest) (reverse : Bool) (nodes : List Node) : List Node :=
  let sorted := (NodeSet.ofList nodes).toList f
  if reverse then sorted.reverse else sorted

/-- The value of an operation with two values; those of `or`, `and` and `|` are not among them. -/
def Operator.apply (f : Forest) (operator : Operator) (left right : Value) : Value :=
  match operator with
  | .equal => .truth (left.compare f .equal right)
  | .notEqual => .truth (left.compare f .notEqual right)
  | .less => .truth (left.compare f .less right)
  | .greater => .truth (left.compare f .greater right)
  | .lessOrEqual => .truth (left.compare f .lessOrEqual right)
  | .greaterOrEqual => .truth (left.compare f .greaterOrEqual right)
  | .plus => .number (left.toNumber f + right.toNumber f)
  | .minus => .number (left.toNumber f - right.toNumber f)
  | .multiply => .number (left.toNumber f * right.toNumber f)
  | .div => .number (Number.divide (left.toNumber f) (right.toNumber f))
  | .mod => .number (Number.modulo (left.toNumber f) (right.toNumber f))
  | .or => .truth (left.toTruth || right.toTruth)
  | .and => .truth (left.toTruth && right.toTruth)
  | .union => right

/-- The nodes that an axis reaches from a node. The namespaces of an element are read for its namespace
nodes. -/
def Environment.axisNodes (env : Environment m) (axis : Axis) (n : Node) : m (List Node) := do
  match axis, n with
  | .namespace, .item id => if env.forest.isElement n then noteScope id
  | _, _ => pure ()
  return axis.nodes env.forest env.virtualRoot n

mutual

/-- The value of an expression at a focus. -/
def Expr.evalIn (env : Environment m) : Expr → Focus → m Value
  | .text value, _ => pure (.text value)
  | .number value, _ => pure (.number value)
  | .negate operand, focus => do
    return .number (-(← operand.evalIn env focus).toNumber env.forest)
  | .binary .or left right, focus => do
    if (← left.evalIn env focus).toTruth then return .truth true
    else return .truth (← right.evalIn env focus).toTruth
  | .binary .and left right, focus => do
    if (← left.evalIn env focus).toTruth then return .truth (← right.evalIn env focus).toTruth
    else return .truth false
  | .binary .union left right, focus => do
    let first ← (← left.evalIn env focus).theNodes
    let second ← (← right.evalIn env focus).theNodes
    return .nodes (first.union second)
  | .binary operator left right, focus => do
    let first ← left.evalIn env focus
    let second ← right.evalIn env focus
    return operator.apply env.forest first second
  | .path absolute steps, focus => do
    let start ← focus.theNode
    let start := if absolute then Axis.rootOf env.forest env.virtualRoot start else start
    return .nodes (.ofList (← Step.evalAll env steps [start]))
  | .filter base predicates steps, focus => do
    match ← base.evalIn env focus with
    | .nodes set =>
      let kept ← Expr.keepAll env predicates (set.toList env.forest)
      return .nodes (.ofList (← Step.evalAll env steps kept))
    | value =>
      match predicates, steps with
      | [], [] => return value
      | _, _ => fail .filterNotNodes
  | .call function arguments, focus => do
    let uri ← env.uriOfName function focus.node
    match env.functionNamed? function.localPart uri with
    | some call => call env.forest focus (Expr.arguments env arguments)
    | none => fail (.unknownFunction function.text)
  | .reference variableName, focus => do
    let uri ← env.uriOfName variableName focus.node
    match env.variableNamed? variableName.localPart uri with
    | some given => given.theValue env.forest
    | none => fail (.undeclaredVariable variableName.text)

/-- The arguments of a call, to be evaluated by the function. -/
def Expr.arguments (env : Environment m) : List Expr → List (Argument m)
  | [] => []
  | e :: es => ⟨e, e.evalIn env⟩ :: Expr.arguments env es

/-- The nodes that predicates keep one after the other. -/
def Expr.keepAll (env : Environment m) : List Expr → List Node → m (List Node)
  | [], nodes => pure nodes
  | predicate :: rest, nodes => do
    let size : Int := nodes.length
    let kept ← keepFrom (fun n position => do
      return (← predicate.evalIn env ⟨some n, position, size⟩).keeps position) 1 nodes
    Expr.keepAll env rest kept

/-- The nodes that a step gives for a node. -/
def Step.evalAt (env : Environment m) : Step → Node → m (List Node)
  | .mk axis test predicates, n => do
    let reached ← env.axisNodes axis n
    let passed ← env.select axis.principalKind test n reached
    match predicates with
    | [] => return passed
    | first :: rest =>
      let ordered := inAxisOrder env.forest axis.isReverse passed
      Expr.keepAll env (first :: rest) ordered

/-- The nodes that steps give for a list of nodes. -/
def Step.evalAll (env : Environment m) : List Step → List Node → m (List Node)
  | [], nodes => pure nodes
  | step :: rest, nodes => do
    let found ← stepFromEach (step.evalAt env) .empty nodes
    Step.evalAll env rest found.inOrderOfAddition

end

end XPathAnnotator
