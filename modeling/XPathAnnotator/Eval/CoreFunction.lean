/-
**The core functions.**

The functions that every expression can call. Arguments are evaluated at the focus of the call, from left
to right; a wrong number of arguments, or one that must be a node-set and is none, is reported with the
signature of the function. Functions of an optional argument use the node of the focus without it.
-/

import XPathAnnotator.Eval.Context
import XPathAnnotator.Text.Case
import XPathAnnotator.Text.Pieces

namespace XPathAnnotator

open Evaluating

/-- The core functions. -/
inductive CoreFunction where
  | last
  | position
  | count
  | id
  | localName
  | namespaceUri
  | name
  | string
  | concat
  | startsWith
  | contains
  | substringBefore
  | substringAfter
  | substring
  | stringLength
  | normalizeSpace
  | translate
  | boolean
  | not
  | true
  | false
  | lang
  | number
  | sum
  | floor
  | ceiling
  | round
deriving DecidableEq

namespace CoreFunction

/-- All core functions. -/
def all : List CoreFunction :=
  [.last, .position, .count, .id, .localName, .namespaceUri, .name, .string, .concat, .startsWith,
    .contains, .substringBefore, .substringAfter, .substring, .stringLength, .normalizeSpace, .translate,
    .boolean, .not, .true, .false, .lang, .number, .sum, .floor, .ceiling, .round]

/-- The name that a function is called by. -/
def title : CoreFunction → String
  | .last => "last"
  | .position => "position"
  | .count => "count"
  | .id => "id"
  | .localName => "local-name"
  | .namespaceUri => "namespace-uri"
  | .name => "name"
  | .string => "string"
  | .concat => "concat"
  | .startsWith => "starts-with"
  | .contains => "contains"
  | .substringBefore => "substring-before"
  | .substringAfter => "substring-after"
  | .substring => "substring"
  | .stringLength => "string-length"
  | .normalizeSpace => "normalize-space"
  | .translate => "translate"
  | .boolean => "boolean"
  | .not => "not"
  | .true => "true"
  | .false => "false"
  | .lang => "lang"
  | .number => "number"
  | .sum => "sum"
  | .floor => "floor"
  | .ceiling => "ceiling"
  | .round => "round"

/-- The arguments that a function expects, as messages show them. -/
def signature : CoreFunction → String
  | .last | .position | .true | .false => "()"
  | .count | .sum => "(node-set)"
  | .id | .boolean | .not => "(object)"
  | .localName | .namespaceUri | .name => "(node-set?)"
  | .string | .number => "(object?)"
  | .concat => "(string, string[, string]*)"
  | .startsWith | .contains | .substringBefore | .substringAfter => "(string, string)"
  | .substring => "(string, number, number?)"
  | .stringLength | .normalizeSpace => "(string?)"
  | .translate => "(string, string, string)"
  | .lang => "(string)"
  | .floor | .ceiling | .round => "(number)"

/-- The function of a name. -/
def ofTitle? (title : String) : Option CoreFunction :=
  all.find? fun function => function.title == title

/-! ### What the functions compute -/

/-- The elements of the document of a node with some identifiers. -/
def elementsById (f : Forest) (n : Node) (identifiers : List String) : NodeSet :=
  let document := if f.kind n == .document then some n else f.ownerDocument? n
  match document with
  | none => .empty
  | some document => .ofList (identifiers.filterMap (f.elementById? document))

/-- The characters at the positions, counted from one, that are not below a start and below an end. -/
def sliceBetween (start finish : Float) (cs : List Char) : List Char :=
  ((cs.zipIdx 1).filter fun (_, p) => start ≤ Float.ofNat p && Float.ofNat p < finish).map Prod.fst

/-- What becomes of a character when the characters of a first row turn into those of a second one;
a character without partner is dropped. -/
def translateChar (c : Char) : List Char → List Char → List Char
  | [], _ => [c]
  | s :: source, [] => if s = c then [] else translateChar c source []
  | s :: source, t :: target => if s = c then [t] else translateChar c source target

/-- Whether a value of `xml:lang` means a language or a part of it, without regard to case. -/
def isLanguage (lang value : String) : Bool :=
  let value := Text.toLower (Text.trimSpaces value)
  value == lang || Text.startsWith value (lang ++ "-")

/-- The elements that a row of nodes begins with. -/
def leadingElements (f : Forest) (nodes : List Node) : List Node := nodes.takeWhile f.isElement

/-- Whether the language of a node is the one that is meant, by the nearest `xml:lang` on the elements
that it, or the owner of an attribute or namespace, stands in without a gap. -/
def hasLanguage (f : Forest) (n : Node) (lang : String) : Bool :=
  let chain := if (f.kind n).isAttributeLike then f.ancestors n else n :: f.ancestors n
  match (leadingElements f chain).findSome? fun e => f.attributeIn? e Name.xmlUri "lang" with
  | some value => isLanguage lang value
  | none => Bool.false

/-! ### Calls -/

variable {m : Type → Type} [Evaluating m]

/-- The call with arguments that a function does not expect. -/
def refuse {α : Type} (function : CoreFunction) : m α :=
  fail (.wrongArguments function.title function.signature)

/-- The node-set that an argument must be. -/
def nodesOf (function : CoreFunction) (focus : Focus) (a : Argument m) : m NodeSet := do
  match ← a.value focus with
  | .nodes set => pure set
  | _ => function.refuse

/-- The text of an argument. -/
def textOf (f : Forest) (focus : Focus) (a : Argument m) : m String := do
  return (← a.value focus).toText f

/-- The number of an argument. -/
def numberOf (f : Forest) (focus : Focus) (a : Argument m) : m Float := do
  return (← a.value focus).toNumber f

/-- The texts of arguments. -/
def textsOf (f : Forest) (focus : Focus) : List (Argument m) → m (List String)
  | [] => pure []
  | a :: rest => do return (← textOf f focus a) :: (← textsOf f focus rest)

/-- The node that a function with an optional node-set is about. -/
def subject? (function : CoreFunction) (f : Forest) (focus : Focus) :
    List (Argument m) → m (Option Node)
  | [] => do return some (← focus.theNode)
  | [a] => do return (← function.nodesOf focus a).first? f
  | _ => function.refuse

/-- The text that a function with an optional text is about. -/
def subjectText (function : CoreFunction) (f : Forest) (focus : Focus) : List (Argument m) → m String
  | [] => do return f.stringValue (← focus.theNode)
  | [a] => textOf f focus a
  | _ => function.refuse

/-- The value of a call. -/
def call (function : CoreFunction) : Function m := fun f focus arguments =>
  match function, arguments with
  | .last, [] => pure (.number (Float.ofInt focus.size))
  | .position, [] => pure (.number (Float.ofInt focus.position))
  | .count, [a] => do return .number (Float.ofNat (← function.nodesOf focus a).size)
  | .id, [a] => do
    let value ← a.value focus
    let text := match value with
      | .nodes set => String.intercalate " " (set.stringValues f)
      | value => value.toText f
    return .nodes (elementsById f (← focus.theNode) (Text.words text))
  | .localName, arguments => do
    return .text (((← function.subject? f focus arguments).map f.localName).getD "")
  | .namespaceUri, arguments => do
    return .text (((← function.subject? f focus arguments).map f.uri).getD "")
  | .name, arguments => do
    return .text (((← function.subject? f focus arguments).map f.name).getD "")
  | .string, arguments => do return .text (← function.subjectText f focus arguments)
  | .concat, a :: b :: rest => do return .text (String.join (← textsOf f focus (a :: b :: rest)))
  | .startsWith, [a, b] => do
    let text ← textOf f focus a
    return .truth (Text.startsWith text (← textOf f focus b))
  | .contains, [a, b] => do
    let text ← textOf f focus a
    return .truth (Text.containsText text (← textOf f focus b))
  | .substringBefore, [a, b] => do
    let text ← textOf f focus a
    let pattern ← textOf f focus b
    return .text (((Text.splitAtFirst? pattern.toList text.toList).map
      fun (before, _) => String.ofList before).getD "")
  | .substringAfter, [a, b] => do
    let text ← textOf f focus a
    let pattern ← textOf f focus b
    return .text (((Text.splitAtFirst? pattern.toList text.toList).map
      fun (_, after) => String.ofList after).getD "")
  | .substring, [a, b] => do
    let text ← textOf f focus a
    let start := Number.round (← numberOf f focus b)
    return .text (String.ofList (sliceBetween start Number.infinity text.toList))
  | .substring, [a, b, c] => do
    let text ← textOf f focus a
    let start := Number.round (← numberOf f focus b)
    let finish := start + Number.round (← numberOf f focus c)
    return .text (String.ofList (sliceBetween start finish text.toList))
  | .stringLength, arguments => do
    return .number (Float.ofNat (← function.subjectText f focus arguments).length)
  | .normalizeSpace, arguments => do
    return .text (Text.collapseBlanks (← function.subjectText f focus arguments))
  | .translate, [a, b, c] => do
    let text ← textOf f focus a
    let source ← textOf f focus b
    let target ← textOf f focus c
    return .text (String.ofList (text.toList.flatMap fun c => translateChar c source.toList target.toList))
  | .boolean, [a] => do return .truth (← a.value focus).toTruth
  | .not, [a] => do return .truth (!(← a.value focus).toTruth)
  | .true, [] => pure (.truth Bool.true)
  | .false, [] => pure (.truth Bool.false)
  | .lang, [a] => do
    let lang := Text.toLower (← textOf f focus a)
    return .truth (hasLanguage f (← focus.theNode) lang)
  | .number, [] => do return .number (Number.ofText (f.stringValue (← focus.theNode)))
  | .number, [a] => do return .number (← numberOf f focus a)
  | .sum, [a] => do
    let set ← function.nodesOf focus a
    return .number (((set.stringValues f).map Number.ofText).foldl (· + ·) 0)
  | .floor, [a] => do return .number (Number.floor (← numberOf f focus a))
  | .ceiling, [a] => do return .number (Number.ceiling (← numberOf f focus a))
  | .round, [a] => do return .number (Number.round (← numberOf f focus a))
  | function, _ => function.refuse

end CoreFunction

end XPathAnnotator
