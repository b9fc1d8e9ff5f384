/-
**Expressions on report items.**

A report item is a node that the expressions of a matcher are evaluated on, with the functions for
matchers and others that may be given. An expression that cannot be read is reported with its source.
-/

import XPathAnnotator.Expr.Parser
import XPathAnnotator.Report.Function

namespace XPathAnnotator

/-- An expression of a matcher that cannot be read. -/
structure QueryError where
  source : String
  error : Expr.SyntaxError

/-- The wording of an error of reading. -/
def QueryError.message (e : QueryError) : String :=
  "Error parsing xpath expression \"" ++ e.source ++ "\": " ++ e.error.message

/-- The expression of a matcher that a text is written for. -/
def readQuery (source : String) : Except QueryError Expr :=
  (Expr.read source).mapError fun e => ⟨source, e.cause⟩

/-- A node of a report with the functions that expressions on it can call. -/
structure ReportItem where
  forest : Forest
  node : Option Node
  functions : List (String × Function (Except EvalError))

namespace ReportItem

/-- The functions for matchers with others added, which come before them. -/
def functionsWith (given : List (String × Function (Except EvalError))) :
    List (String × Function (Except EvalError)) :=
  given ++ ReportFunction.table

/-- The environment of expressions on a forest. -/
def environment (f : Forest) (functions : List (String × Function (Except EvalError))) :
    Environment (Except EvalError) where
  forest := f
  givenUri? _ := none
  usesScope := true
  functionNamed? := resolveFunction? (.table functions)
  variableNamed? _ _ := none
  ignoresCase := false
  anyNamespace := false
  html := false
  virtualRoot := none

/-- The value of an expression on an item. -/
def evaluate (item : ReportItem) (e : Expr) : Except EvalError Value :=
  e.evalIn (environment item.forest item.functions) (Focus.start item.node)

/-- The form of an item in messages. -/
def shown (item : ReportItem) : String :=
  "XPathSelect(" ++ (item.node.map item.forest.shown).getD "None" ++ ")"

end ReportItem

end XPathAnnotator
