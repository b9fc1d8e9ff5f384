/-
**Expressions of XPath.**

The syntax tree of an expression. A location path is absolute or relative and has steps; a filter
expression puts predicates and further steps after another expression. A relative path has at least one
step, and a filter expression has a predicate or a step: the parser makes no others.
-/

import XPathAnnotator.Axis.Basic
import XPathAnnotator.Name.Qualified

namespace XPathAnnotator

open XPathAnnotator.Name

/-- The operators with two operands. -/
inductive Operator where
  | or
  | and
  | equal
  | notEqual
  | less
  | greater
  | lessOrEqual
  | greaterOrEqual
  | plus
  | minus
  | multiply
  | div
  | mod
  | union
deriving DecidableEq, Inhabited

/-- What a step asks of a node. -/
inductive NodeTest where
  | anyName
  | anyNameIn (qualifier : String)
  | name (name : QName)
  | comment
  | text
  | instruction (target : Option String)
  | anyNode
deriving DecidableEq, Inhabited

mutual

/-- An expression. -/
inductive Expr where
  | text (value : String)
  | number (value : Float)
  | negate (operand : Expr)
  | binary (operator : Operator) (left right : Expr)
  | path (absolute : Bool) (steps : List Step)
  | filter (base : Expr) (predicates : List Expr) (steps : List Step)
  | call (function : QName) (arguments : List Expr)
  | reference (variableName : QName)

/-- A step of a location path: an axis, a node test and predicates. -/
inductive Step where
  | mk (axis : Axis) (test : NodeTest) (predicates : List Expr)

end

instance : Inhabited Expr := ⟨.text ""⟩

namespace Step

/-- The axis of a step. -/
def axis : Step → Axis
  | mk axis _ _ => axis

/-- The node test of a step. -/
def test : Step → NodeTest
  | mk _ test _ => test

/-- The predicates of a step. -/
def predicates : Step → List Expr
  | mk _ _ predicates => predicates

/-- The step that `//` stands for between two others. -/
def descendants : Step := mk .descendantOrSelf .anyNode []

end Step

end XPathAnnotator
