/-
**The written form of expressions.**

`Expr.print` writes an expression with every axis spelled out and every binary operation in
parentheses. `Expr.shown`, `NodeTest.shown` and the like are the forms in messages: the kind of the thing
with its written form between quotes.
-/

import XPathAnnotator.Expr.Basic
import XPathAnnotator.Number.Numeral

namespace XPathAnnotator

open XPathAnnotator.Name

namespace Operator

/-- The symbol of an operator. -/
def symbol : Operator → String
  | or => "or"
  | and => "and"
  | equal => "="
  | notEqual => "!="
  | less => "<"
  | greater => ">"
  | lessOrEqual => "<="
  | greaterOrEqual => ">="
  | plus => "+"
  | minus => "-"
  | multiply => "*"
  | div => "div"
  | mod => "mod"
  | union => "|"

/-- The kind of an operation, as messages name it. -/
def kindName : Operator → String
  | or => "OrOperation"
  | and => "AndOperation"
  | equal => "EqualsOperation"
  | notEqual => "NotEqualOperation"
  | less => "LessThanOperation"
  | greater => "GreaterThanOperation"
  | lessOrEqual => "LessThanOrEqualOperation"
  | greaterOrEqual => "GreaterThanOrEqualOperation"
  | plus => "PlusOperation"
  | minus => "MinusOperation"
  | multiply => "MultiplyOperation"
  | div => "DivOperation"
  | mod => "ModOperation"
  | union => "UnionOperation"

end Operator

namespace NodeTest

/-- The written form of a node test. -/
def print : NodeTest → String
  | anyName => "*"
  | anyNameIn qualifier => qualifier ++ ":*"
  | .name written => written.text
  | comment => "comment()"
  | .text => "text()"
  | instruction none => "processing-instruction()"
  | instruction (some target) => "processing-instruction(\"" ++ target ++ "\")"
  | anyNode => "node()"

/-- The kind of a node test, as messages name it. -/
def kindName : NodeTest → String
  | anyName => "NameTestAny"
  | anyNameIn _ => "NameTestPrefixAny"
  | .name _ => "NameTestQName"
  | comment => "CommentTest"
  | .text => "TextTest"
  | instruction _ => "ProcessingInstructionTest"
  | anyNode => "AnyNodeTest"

/-- A node test as shown in messages. -/
def shown (test : NodeTest) : String := test.kindName ++ "(" ++ Text.quoted test.print ++ ")"

end NodeTest

/-- The written form of a literal: between double quotes if it holds none. -/
def printLiteral (value : String) : String :=
  if value.toList.contains '"' then "'" ++ value ++ "'" else "\"" ++ value ++ "\""

mutual

/-- The written form of an expression. -/
def Expr.print : Expr → String
  | .text value => printLiteral value
  | .number value => Number.toText value
  | .negate operand => "-" ++ operand.print
  | .binary operator left right =>
    "(" ++ left.print ++ " " ++ operator.symbol ++ " " ++ right.print ++ ")"
  | .path absolute steps =>
    (if absolute then "/" else "") ++ String.intercalate "/" (Step.printAll steps)
  | .filter base predicates steps =>
    base.print ++ Expr.printPredicates predicates ++
      (match steps with
        | [] => ""
        | _ :: _ => "/" ++ String.intercalate "/" (Step.printAll steps))
  | .call function arguments =>
    function.text ++ "(" ++ String.intercalate ", " (Expr.printAll arguments) ++ ")"
  | .reference variableName => "$" ++ variableName.text

/-- The written forms of expressions. -/
def Expr.printAll : List Expr → List String
  | [] => []
  | e :: es => e.print :: Expr.printAll es

/-- The written form of predicates, each in brackets. -/
def Expr.printPredicates : List Expr → String
  | [] => ""
  | e :: es => "[" ++ e.print ++ "]" ++ Expr.printPredicates es

/-- The written form of a step. -/
def Step.print : Step → String
  | .mk axis test predicates => axis.name ++ "::" ++ test.print ++ Expr.printPredicates predicates

/-- The written forms of steps. -/
def Step.printAll : List Step → List String
  | [] => []
  | step :: steps => step.print :: Step.printAll steps

end

namespace Expr

/-- The kind of an expression, as messages name it. -/
def kindName : Expr → String
  | text _ => "XString"
  | number _ => "XNumber"
  | negate _ => "UnaryMinusOperation"
  | binary operator _ _ => operator.kindName
  | path _ _ => "PathExpr"
  | filter _ _ _ => "PathExpr"
  | call _ _ => "FunctionCall"
  | reference _ => "VariableReference"

/-- An expression as shown in messages: literals by their values, others by their written form. -/
def shown : Expr → String
  | text value => "XString(" ++ Text.quoted value ++ ")"
  | number value => "XNumber(" ++ Number.shown value ++ ")"
  | e => e.kindName ++ "(" ++ Text.quoted e.print ++ ")"

end Expr

/-- A step as shown in messages. -/
def Step.shown (step : Step) : String := "Step(" ++ Text.quoted step.print ++ ")"

/-- A location path as shown in messages. -/
def shownPath (absolute : Bool) (steps : List Step) : String :=
  "LocationPath(" ++ Text.quoted (Expr.print (.path absolute steps)) ++ ")"

end XPathAnnotator
