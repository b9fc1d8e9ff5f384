/-
**Expressions as plain data.**

The outline of an expression is a list that begins with the kind of the expression and goes on with the
outlines of its parts, so that the tree of an expression can be looked at without its notation.
-/

import XPathAnnotator.Data.Datum
import XPathAnnotator.Expr.Printer

namespace XPathAnnotator

open XPathAnnotator.Data

/-- The outline of a node test: its kind and its written form. -/
def NodeTest.outline (test : NodeTest) : Setting := .list [.text test.kindName, .text test.print]

/-- The outline of a location path whose steps have outlines. -/
def outlineOfPath (absolute : Bool) (steps : List Setting) : Setting :=
  .list [.text "LocationPath", .truth absolute, .list steps]

mutual

/-- The outline of an expression. -/
def Expr.outline : Expr → Setting
  | .text value => .list [.text "XString", .text value]
  | .number value => .list [.text "XNumber", .number value]
  | .negate operand => .list [.text "UnaryMinusOperation", operand.outline]
  | .binary operator left right => .list [.text operator.kindName, left.outline, right.outline]
  | .path absolute steps =>
    .list [.text "PathExpr", .null, .list [], outlineOfPath absolute (Step.outlineAll steps)]
  | .filter base predicates steps =>
    .list [.text "PathExpr", base.outline, .list (Expr.outlineAll predicates),
      match steps with
      | [] => .null
      | _ :: _ => outlineOfPath false (Step.outlineAll steps)]
  | .call function arguments =>
    .list [.text "FunctionCall", .text function.text, .list (Expr.outlineAll arguments)]
  | .reference variableName => .list [.text "VariableReference", .text variableName.text]

/-- The outlines of expressions. -/
def Expr.outlineAll : List Expr → List Setting
  | [] => []
  | e :: es => e.outline :: Expr.outlineAll es

/-- The outline of a step. -/
def Step.outline : Step → Setting
  | .mk axis test predicates =>
    .list [.text "Step", .text axis.name, test.outline, .list (Expr.outlineAll predicates)]

/-- The outlines of steps. -/
def Step.outlineAll : List Step → List Setting
  | [] => []
  | step :: steps => step.outline :: Step.outlineAll steps

end

/-- The location path of an expression: whether it starts at the root, and its steps. -/
def Expr.locationPath? : Expr → Option (Bool × List Step)
  | .path absolute steps => some (absolute, steps)
  | .filter _ _ (step :: steps) => some (false, step :: steps)
  | _ => none

/-- The forms in messages of an expression and of what its location path is made of. -/
def Expr.shownParts (e : Expr) : List String :=
  e.shown :: match e.locationPath? with
    | none => []
    | some (absolute, steps) =>
      shownPath absolute steps :: steps.map Step.shown ++ steps.map fun step => step.test.shown

end XPathAnnotator
