/-
**The grammar of XPath.**

Each production of the grammar comes with the rule that builds the tree of its left side from those of
its right side (`productions`). `table?` is the parsing table of the grammar and `parse` reads an
expression. Abbreviations are expanded on the way: `//`, `@`, `.`, `..` and a step without axis. `read` does the
same and tells the expression with the error.
-/

import XPathAnnotator.Expr.Basic
import XPathAnnotator.Number.Numeral
import XPathAnnotator.Token.Lexer

namespace XPathAnnotator

open XPathAnnotator.Name XPathAnnotator.Grammar

namespace Expr

/-- Why a text is no expression. -/
inductive SyntaxError where
  | lexical (cause : Token.LexicalError)
  | unexpected (token : Grammar.Token)
  | unknownAxis (name : String)
  | misshapen
  | noTable

/-- The wording of an error. -/
def SyntaxError.message : SyntaxError → String
  | lexical cause => cause.message
  | unexpected token => token.blame
  | unknownAxis name => "Unknown axis: " ++ name
  | misshapen => "XPath parse error: misshapen expression"
  | noTable => "XPath parse error: no parsing table"

/-- What a symbol of the grammar is read as. -/
inductive Part where
  | word (text : String)
  | expr (e : Expr)
  | exprs (es : List Expr)
  | axis (axis : Axis)
  | test (test : NodeTest)
  | step (step : Step)
  | path (absolute : Bool) (steps : List Step)

/-- A rule that builds the part of a left side. -/
abbrev Builder := List Part → Except SyntaxError Part

/-- The part of a single symbol stays. -/
def keep : Builder
  | [part] => .ok part
  | _ => .error .misshapen

/-- The part between two marks. -/
def between : Builder
  | [_, part, _] => .ok part
  | _ => .error .misshapen

/-- An operation with its operator between the operands. -/
def operation (operator : Operator) : Builder
  | [.expr left, .word _, .expr right] => .ok (.expr (.binary operator left right))
  | _ => .error .misshapen

/-- A unary minus. -/
def negation : Builder
  | [.word _, .expr operand] => .ok (.expr (.negate operand))
  | _ => .error .misshapen

/-- A location path as an expression. -/
def locationExpr : Builder
  | [.path absolute steps] => .ok (.expr (.path absolute steps))
  | _ => .error .misshapen

/-- The steps after a separator. -/
def stepsAfter (separator : String) (steps : List Step) : List Step :=
  if separator == "//" then Step.descendants :: steps else steps

/-- A path after a filter expression. -/
def filteredPath : Builder
  | [.expr base, .word separator, .path _ steps] =>
    .ok (.expr (match base with
      | .filter inner predicates [] => .filter inner predicates (stepsAfter separator steps)
      | base => .filter base [] (stepsAfter separator steps)))
  | _ => .error .misshapen

/-- A predicate after a filter expression. -/
def filterPredicate : Builder
  | [.expr base, .expr predicate] =>
    .ok (.expr (match base with
      | .filter inner predicates [] => .filter inner (predicates ++ [predicate]) []
      | base => .filter base [predicate] []))
  | _ => .error .misshapen

/-- The path of the root alone. -/
def rootPath : Builder
  | [.word _] => .ok (.path true [])
  | _ => .error .misshapen

/-- A path from the root. -/
def absolutePath : Builder
  | [.word separator, .path _ steps] => .ok (.path true (stepsAfter separator steps))
  | _ => .error .misshapen

/-- A path of one step. -/
def firstStep : Builder
  | [.step step] => .ok (.path false [step])
  | _ => .error .misshapen

/-- A path with one more step. -/
def nextStep : Builder
  | [.path absolute steps, .word separator, .step step] =>
    .ok (.path absolute (steps ++ stepsAfter separator [step]))
  | _ => .error .misshapen

/-- A step from its parts, on the child axis if none is given. -/
def makeStep : Builder
  | [.axis axis, .test test] => .ok (.step (.mk axis test []))
  | [.axis axis, .test test, .exprs predicates] => .ok (.step (.mk axis test predicates))
  | [.test test] => .ok (.step (.mk .child test []))
  | [.test test, .exprs predicates] => .ok (.step (.mk .child test predicates))
  | _ => .error .misshapen

/-- A step to any node on an axis. -/
def anyNodeStep (axis : Axis) : Builder
  | [.word _] => .ok (.step (.mk axis .anyNode []))
  | _ => .error .misshapen

/-- An axis by its name. -/
def namedAxis : Builder
  | [.word name, .word _] =>
    match Axis.ofName? name with
    | some axis => .ok (.axis axis)
    | none => .error (.unknownAxis name)
  | _ => .error .misshapen

/-- The attribute axis by its sign. -/
def attributeAxis : Builder
  | [.word _] => .ok (.axis .attribute)
  | _ => .error .misshapen

/-- The node test of a node type. -/
def typeTest : Builder
  | [.word name, .word _, .word _] =>
    .ok (.test (
      if name == "comment" then .comment
      else if name == "text" then .text
      else if name == "processing-instruction" then .instruction none
      else .anyNode))
  | _ => .error .misshapen

/-- The node test of a processing instruction with a target. -/
def targetTest : Builder
  | [.word _, .word _, .word target, .word _] => .ok (.test (.instruction (some target)))
  | _ => .error .misshapen

/-- A name test made from its lexeme. -/
def nameTest (make : String → NodeTest) : Builder
  | [.word lexeme] => .ok (.test (make lexeme))
  | _ => .error .misshapen

/-- The qualifier before `:*`. -/
def qualifierOf (text : String) : String := String.ofList text.toList.dropLast.dropLast

/-- A list of one expression. -/
def firstExpr : Builder
  | [.expr e] => .ok (.exprs [e])
  | _ => .error .misshapen

/-- A list with one more expression. -/
def nextExpr : Builder
  | [.exprs es, .expr e] => .ok (.exprs (es ++ [e]))
  | [.exprs es, .word _, .expr e] => .ok (.exprs (es ++ [e]))
  | _ => .error .misshapen

/-- A literal. -/
def literal : Builder
  | [.word lexeme] => .ok (.expr (.text lexeme))
  | _ => .error .misshapen

/-- A number. -/
def numeral : Builder
  | [.word lexeme] => .ok (.expr (.number (Number.ofText lexeme)))
  | _ => .error .misshapen

/-- A function call. -/
def functionCall : Builder
  | [.word name, .word _, .word _] => .ok (.expr (.call (QName.ofText name) []))
  | [.word name, .word _, .exprs arguments, .word _] =>
    .ok (.expr (.call (QName.ofText name) arguments))
  | _ => .error .misshapen

/-- A reference to a variable. -/
def variableReference : Builder
  | [.word _, .word name] => .ok (.expr (.reference (QName.ofText name)))
  | _ => .error .misshapen

/-- The productions of the grammar with their rules. -/
def productions : List (String × Builder) := [
  ("Expr : OrExpr", keep),
  ("OrExpr : AndExpr", keep),
  ("AndExpr : EqualityExpr", keep),
  ("EqualityExpr : RelationalExpr", keep),
  ("RelationalExpr : AdditiveExpr", keep),
  ("AdditiveExpr : MultiplicativeExpr", keep),
  ("MultiplicativeExpr : UnaryExpr", keep),
  ("UnaryExpr : UnionExpr", keep),
  ("UnionExpr : PathExpr", keep),
  ("OrExpr : OrExpr or AndExpr", operation .or),
  ("AndExpr : AndExpr and EqualityExpr", operation .and),
  ("EqualityExpr : EqualityExpr = RelationalExpr", operation .equal),
  ("EqualityExpr : EqualityExpr != RelationalExpr", operation .notEqual),
  ("RelationalExpr : RelationalExpr < AdditiveExpr", operation .less),
  ("RelationalExpr : RelationalExpr > AdditiveExpr", operation .greater),
  ("RelationalExpr : RelationalExpr <= AdditiveExpr", operation .lessOrEqual),
  ("RelationalExpr : RelationalExpr >= AdditiveExpr", operation .greaterOrEqual),
  ("AdditiveExpr : AdditiveExpr + MultiplicativeExpr", operation .plus),
  ("AdditiveExpr : AdditiveExpr - MultiplicativeExpr", operation .minus),
  ("MultiplicativeExpr : MultiplicativeExpr MULTIPLY UnaryExpr", operation .multiply),
  ("MultiplicativeExpr : MultiplicativeExpr div UnaryExpr", operation .div),
  ("MultiplicativeExpr : MultiplicativeExpr mod UnaryExpr", operation .mod),
  ("UnaryExpr : - UnaryExpr", negation),
  ("UnionExpr : UnionExpr | PathExpr", operation .union),
  ("PathExpr : LocationPath", locationExpr),
  ("PathExpr : FilterExpr", keep),
  ("PathExpr : FilterExpr / RelativeLocationPath", filteredPath),
  ("PathExpr : FilterExpr // RelativeLocationPath", filteredPath),
  ("FilterExpr : PrimaryExpr", keep),
  ("FilterExpr : FilterExpr Predicate", filterPredicate),
  ("LocationPath : RelativeLocationPath", keep),
  ("LocationPath : AbsoluteLocationPath", keep),
  ("AbsoluteLocationPath : /", rootPath),
  ("AbsoluteLocationPath : / RelativeLocationPath", absolutePath),
  ("AbsoluteLocationPath : // RelativeLocationPath", absolutePath),
  ("RelativeLocationPath : Step", firstStep),
  ("RelativeLocationPath : RelativeLocationPath / Step", nextStep),
  ("RelativeLocationPath : RelativeLocationPath // Step", nextStep),
  ("Step : AxisSpecifier NodeTest", makeStep),
  ("Step : AxisSpecifier NodeTest PredicateList", makeStep),
  ("Step : NodeTest", makeStep),
  ("Step : NodeTest PredicateList", makeStep),
  ("Step : .", anyNodeStep .self),
  ("Step : ..", anyNodeStep .parent),
  ("AxisSpecifier : AXIS_NAME ::", namedAxis),
  ("AxisSpecifier : @", attributeAxis),
  ("NodeTest : NameTest", keep),
  ("NodeTest : NODE_TYPE ( )", typeTest),
  ("NodeTest : PI_WITH_LITERAL ( LITERAL )", targetTest),
  ("NameTest : ASTERISK_NAME_TEST", nameTest fun _ => .anyName),
  ("NameTest : NCNAME_COLON_ASTERISK", nameTest fun text => .anyNameIn (qualifierOf text)),
  ("NameTest : QNAME", nameTest fun text => .name (QName.ofText text)),
  ("PredicateList : Predicate", firstExpr),
  ("PredicateList : PredicateList Predicate", nextExpr),
  ("Predicate : [ Expr ]", between),
  ("PrimaryExpr : VariableReference", keep),
  ("PrimaryExpr : ( Expr )", between),
  ("PrimaryExpr : LITERAL", literal),
  ("PrimaryExpr : NUMBER", numeral),
  ("PrimaryExpr : FunctionCall", keep),
  ("FunctionCall : FUNCTION_NAME ( )", functionCall),
  ("FunctionCall : FUNCTION_NAME ( ArgumentList )", functionCall),
  ("ArgumentList : Expr", firstExpr),
  ("ArgumentList : ArgumentList , Expr", nextExpr),
  ("VariableReference : $ QNAME", variableReference)]

/-- The grammar of XPath. -/
def grammar : Grammar :=
  ⟨"Expr", productions.filterMap fun (rule, _) => Production.ofRule? rule⟩

/-- The parsing table of XPath. -/
def table? : Option Table := (Table.of grammar).toOption

/-- The rules as an array, where production 0 is the implicit one. -/
def builders : Array Builder := (keep :: productions.map (·.2)).toArray

/-- How the parts of an expression are made. -/
def semantics : Semantics Part SyntaxError :=
  { leaf := fun token => .word token.text
    node := fun p parts => (builders.getD p keep) parts }

/-- The expression of a row of tokens by a table. -/
def ofTokensBy (table? : Option Table) (tokens : List Token) : Except SyntaxError Expr :=
  match table? with
  | none => .error .noTable
  | some table =>
    match table.parse semantics (Token.sentence tokens) with
    | .ok (.expr e) => .ok e
    | .ok _ => .error .misshapen
    | .error (.unexpected token) => .error (.unexpected token)
    | .error (.refused cause) => .error cause
    | .error .exhausted => .error .misshapen
    | .error .endless => .error .misshapen

/-- The expression of a row of tokens. -/
def ofTokens (tokens : List Token) : Except SyntaxError Expr := ofTokensBy table? tokens

/-- The expression that a text is written for. -/
def parse (source : String) : Except SyntaxError Expr :=
  match Token.tokenize source with
  | .error cause => .error (.lexical cause)
  | .ok tokens => ofTokens tokens

/-- The expression that an error names where it is found, in a source. An unknown axis names none. -/
def SyntaxError.expression? (source : String) : SyntaxError → Option String
  | lexical _ | unexpected _ => some source
  | _ => none

/-- An error of reading, with the expression that it is about. -/
structure ReadError where
  expression : String
  cause : SyntaxError

/-- Reads the expression that a source is written for. An error that names no expression is about the source. -/
def read (source : String) : Except ReadError Expr :=
  match parse source with
  | .ok e => .ok e
  | .error cause => .error ⟨(cause.expression? source).getD source, cause⟩

end Expr

end XPathAnnotator
