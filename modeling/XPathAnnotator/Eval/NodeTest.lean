/-
**Node tests.**

A step selects the nodes of its axis that pass its node test. A name test passes nodes of the principal
kind of the axis; qualifiers are resolved at the node that the step starts from. Options widen the tests
of names: letters may differ in case, and names without qualifier may stand for elements of any namespace
or of HTML.
-/

import XPathAnnotator.Eval.Context
import XPathAnnotator.Text.Case

namespace XPathAnnotator

variable {m : Type → Type} [Evaluating m]

/-- Whether two local names are the same, where case may be ignored. -/
def isSameName (ignoringCase : Bool) (a b : String) : Bool :=
  if ignoringCase then Text.toLower a == Text.toLower b else a == b

namespace Environment

/-- Whether an element passes the test of a name without qualifier. -/
def acceptsElement (env : Environment m) (name : String) (n : Node) : Bool :=
  let uri := env.forest.uri n
  if env.html && (uri == "" || uri == Name.xhtmlUri) then
    isSameName true (env.forest.localName n) name
  else (uri == "" || env.anyNamespace) && isSameName env.ignoresCase (env.forest.localName n) name

/-- Whether a node of the principal kind passes the test of a name, at the node that a step starts from. -/
def acceptsName (env : Environment m) (kind : NodeKind) (name : Name.QName) (start n : Node) : m Bool :=
  match kind, name.qualifier with
  | .namespace, qualifier => pure (qualifier.isNone && env.forest.localName n == name.localPart)
  | _, some qualifier => do
    let uri ← env.uriOf qualifier (some start)
    return env.forest.uri n == uri && isSameName env.ignoresCase (env.forest.localName n) name.localPart
  | .attribute, none =>
    pure (env.forest.uri n == "" && isSameName env.ignoresCase (env.forest.localName n) name.localPart)
  | _, none => pure (env.acceptsElement name.localPart n)

/-- Whether a node passes a test, on an axis with a principal kind and at the node that a step starts
from. -/
def accepts (env : Environment m) (kind : NodeKind) (test : NodeTest) (start n : Node) : m Bool :=
  match test with
  | .anyName => pure (env.forest.kind n == kind)
  | .anyNameIn qualifier =>
    if env.forest.kind n != kind || kind == .namespace then pure false
    else do return env.forest.uri n == (← env.uriOf qualifier (some start))
  | .name name =>
    if env.forest.kind n != kind then pure false else env.acceptsName kind name start n
  | .comment => pure (env.forest.kind n == .comment)
  | .text => pure (env.forest.kind n == .text)
  | .instruction target => pure (env.forest.kind n == .instruction && (match target with
      | none => true
      | some target => env.forest.name n == Text.trimSpaces target))
  | .anyNode => pure true

/-- The nodes of a list that pass a test. -/
def select (env : Environment m) (kind : NodeKind) (test : NodeTest) (start : Node) :
    List Node → m (List Node)
  | [] => pure []
  | n :: rest => do
    if ← env.accepts kind test start n then return n :: (← env.select kind test start rest)
    else env.select kind test start rest

end Environment

end XPathAnnotator
