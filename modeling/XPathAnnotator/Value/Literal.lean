/-
**Values as literals.**

A value that is not a node-set can be written as an expression. Two such values are the same literal if
they have one type and are equal, where what is not a number counts as equal to itself.
-/

import XPathAnnotator.Expr.Basic
import XPathAnnotator.Value.Basic

namespace XPathAnnotator.Value

/-- The expression that has a value, none for a node-set. -/
def literal? : Value → Option Expr
  | text s => some (.text s)
  | number x => some (.number x)
  | truth b => some (.call ⟨none, if b then "true" else "false"⟩ [])
  | nodes _ => none

/-- Whether two values are the same literal. -/
def isSameLiteral : Value → Value → Bool
  | text s, text t => s == t
  | number x, number y => x == y || (x.isNaN && y.isNaN)
  | truth b, truth c => b == c
  | _, _ => false

end XPathAnnotator.Value
