/-
**Tokens of XPath, and lexical analysis.**

The grammar of XPath tells several kinds of token apart; the name of each is a terminal symbol. A token
carries its lexeme, for a literal without the quotes.

An expression is cut into lexemes from left to right, blanks between them are passed over. What a lexeme
means depends on its neighbours: after an operand a star multiplies and the names `and`, `or`, `mod` and
`div` are operators, and any other name is an axis, a function, a node type or a name test by what follows
it.

* `Token`, `Token.Kind` — tokens and their kinds;
* `lexemeAt?` — the shape and the length of the lexeme that a row of characters begins with;
* `classifyName` — the kind of a name between its neighbours;
* `tokenize` — the tokens of an expression.
-/

import XPathAnnotator.Grammar.Parser
import XPathAnnotator.Text.Blank
import XPathAnnotator.Text.Word

namespace XPathAnnotator

namespace Token

/-- A kind of token. Names that are operators and symbols are kinds of their own. -/
inductive Kind where
  | literal
  | number
  | name
  | anyName
  | anyNameIn
  | axisName
  | functionName
  | nodeType
  | targetTest
  | multiply
  | symbol (text : String)
deriving DecidableEq, Inhabited

/-- The terminal symbol of a kind of token. -/
def Kind.terminal : Kind → String
  | literal => "LITERAL"
  | number => "NUMBER"
  | name => "QNAME"
  | anyName => "ASTERISK_NAME_TEST"
  | anyNameIn => "NCNAME_COLON_ASTERISK"
  | axisName => "AXIS_NAME"
  | functionName => "FUNCTION_NAME"
  | nodeType => "NODE_TYPE"
  | targetTest => "PI_WITH_LITERAL"
  | multiply => "MULTIPLY"
  | symbol text => text

/-- Whether an operator, not an operand, is expected after a token of this kind. -/
def Kind.endsOperand : Kind → Bool
  | literal | number | name | anyName | anyNameIn => true
  | symbol text => text == ")" || text == "]" || text == "." || text == ".."
  | _ => false

end Token

/-- A token of an expression. -/
structure Token where
  kind : Token.Kind
  text : String
deriving DecidableEq, Inhabited

namespace Token

/-- A token as the grammar sees it. -/
def forGrammar (token : Token) : Grammar.Token := ⟨token.kind.terminal, token.text⟩

/-- The tokens of an expression as the grammar sees them, with the end mark. -/
def sentence (tokens : List Token) : List Grammar.Token :=
  tokens.map forGrammar ++ [Grammar.Token.end]

end Token

end XPathAnnotator

namespace XPathAnnotator.Token

open XPathAnnotator.Text

/-! ### Lexemes -/

/-- Why an expression cannot be cut into tokens. -/
inductive LexicalError where
  | unexpected (c : Char)
  | unterminated
deriving DecidableEq

/-- The wording of an error. -/
def LexicalError.message : LexicalError → String
  | unexpected c => "Unexpected character " ++ String.singleton c
  | unterminated => "Unterminated string literal"

/-- Whether a name may begin with a character. -/
def isNameStart (c : Char) : Bool := isWord c && !isDigit c

/-- Whether a name may go on with a character. -/
def isNameChar (c : Char) : Bool :=
  isWord c || c == '.' || c == '-' || c == '\u00B7' || ('\u0300' ≤ c && c ≤ '\u036F') ||
  c == '\u203F' || c == '\u2040'

/-- The length of the name without colon that a row of characters begins with, zero if there is none. -/
def nameLength : List Char → Nat
  | [] => 0
  | c :: rest => if isNameStart c then 1 + (rest.takeWhile isNameChar).length else 0

/-- Whether a text is a name without colon. -/
def isNCName (text : String) : Bool :=
  let cs := text.toList
  cs != [] && nameLength cs == cs.length

/-- The shapes of lexemes. -/
inductive Shape where
  | blank
  | literal
  | number
  | symbol
  | name
deriving DecidableEq

/-- The symbols of two characters. -/
def longSymbols : List (List Char) :=
  [['.', '.'], [':', ':'], ['/', '/'], ['!', '='], ['<', '='], ['>', '=']]

/-- The symbols of one character. -/
def shortSymbols : List Char :=
  ['(', ')', '[', ']', '.', '@', ',', '/', '|', '+', '-', '=', '<', '>', '*', '$']

/-- The length of the number that starts with digits: an optional fraction belongs to it. -/
def numberLength (cs : List Char) : Nat :=
  let whole := (cs.takeWhile isDigit).length
  match cs.dropWhile isDigit with
  | '.' :: rest => whole + 1 + (rest.takeWhile isDigit).length
  | _ => whole

/-- The length of a name with what follows its colon, if that is a name or a star. -/
def qualifiedLength (cs : List Char) : Nat :=
  let first := nameLength cs
  match cs.drop first with
  | ':' :: '*' :: _ => first + 2
  | ':' :: rest => if nameLength rest == 0 then first else first + 1 + nameLength rest
  | _ => first

/-- The shape of the lexeme that starts with a character, and how many characters of the rest belong to
it. -/
def lexemeAt? (c : Char) (rest : List Char) : Except LexicalError (Shape × Nat) :=
  if isBlank c then .ok (.blank, (rest.takeWhile isBlank).length)
  else if c == '"' || c == '\'' then
    if rest.contains c then .ok (.literal, (rest.takeWhile (· != c)).length + 1)
    else .error .unterminated
  else if isDigit c then .ok (.number, numberLength (c :: rest) - 1)
  else if c == '.' && (rest.head?.any isDigit) then .ok (.number, (rest.takeWhile isDigit).length)
  else if longSymbols.contains (c :: rest.take 1) then .ok (.symbol, 1)
  else if shortSymbols.contains c then .ok (.symbol, 0)
  else if isNameStart c then .ok (.name, qualifiedLength (c :: rest) - 1)
  else .error (.unexpected c)

/-- The names of node types. -/
def nodeTypes : List String := ["comment", "text", "node", "processing-instruction"]

/-- The names that are operators after an operand. -/
def operatorNames : List String := ["and", "or", "mod", "div"]

/-- Whether a token ends an operand; there is none at the start. -/
def endsOperand (previous : Option Kind) : Bool := previous.any Kind.endsOperand

/-- The kind of a name, by the token before it and the characters after it. -/
def classifyName (previous : Option Kind) (name : String) (rest : List Char) : Kind :=
  let after := rest.dropWhile isBlank
  if previous == some (.symbol "$") then .name
  else if name.endsWith ":*" then .anyNameIn
  else if endsOperand previous && operatorNames.contains name then .symbol name
  else if [':', ':'].isPrefixOf after && !name.toList.contains ':' then .axisName
  else match after with
    | '(' :: inside =>
      if !nodeTypes.contains name then .functionName
      else if name == "processing-instruction" &&
          ((inside.dropWhile isBlank).head?.any fun c => c == '"' || c == '\'') then .targetTest
      else .nodeType
    | _ => .name

/-- The token of a lexeme, none for blanks. -/
def tokenOf? (previous : Option Kind) (shape : Shape) (lexeme rest : List Char) : Option Token :=
  match shape with
  | .blank => none
  | .literal => some ⟨.literal, String.ofList (lexeme.drop 1).dropLast⟩
  | .number => some ⟨.number, String.ofList lexeme⟩
  | .name =>
    let name := String.ofList lexeme
    some ⟨classifyName previous name rest, name⟩
  | .symbol =>
    let symbol := String.ofList lexeme
    let kind := if symbol != "*" then .symbol symbol
      else if endsOperand previous then .multiply else .anyName
    some ⟨kind, symbol⟩

/-- The tokens of a row of characters, after a token of the given kind. -/
def tokensAfter (previous : Option Kind) : List Char → Except LexicalError (List Token)
  | [] => .ok []
  | c :: rest =>
    match lexemeAt? c rest with
    | .error e => .error e
    | .ok (shape, count) =>
      match tokenOf? previous shape (c :: rest.take count) (rest.drop count) with
      | none => tokensAfter previous (rest.drop count)
      | some token =>
        match tokensAfter (some token.kind) (rest.drop count) with
        | .error e => .error e
        | .ok tokens => .ok (token :: tokens)
termination_by cs => cs.length
decreasing_by all_goals simp only [List.length_drop, List.length_cons]; omega

/-- The tokens of an expression. -/
def tokenize (source : String) : Except LexicalError (List Token) :=
  tokensAfter none source.toList

end XPathAnnotator.Token
