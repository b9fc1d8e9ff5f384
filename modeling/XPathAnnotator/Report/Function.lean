/-
**Functions for report matchers.**

Beside the core functions, the expressions of a matcher can replace the first match of a regular
expression, take a group of it, choose between two expressions by a condition, and tidy the lines of a
text. All but the choice evaluate their arguments before they are counted.
-/

import XPathAnnotator.Eval.Options
import XPathAnnotator.Pattern.Parser
import XPathAnnotator.Pattern.Template
import XPathAnnotator.Text.Blank

namespace XPathAnnotator

open Evaluating

/-- The functions that matchers add to the core functions. -/
inductive ReportFunction where
  | replace
  | firstGroup
  | choose
  | normalize
deriving DecidableEq

namespace ReportFunction

/-- All functions of matchers. -/
def all : List ReportFunction := [replace, firstGroup, choose, normalize]

/-- The name that a function is called by. -/
def title : ReportFunction → String
  | replace => "replace"
  | firstGroup => "match"
  | choose => "if"
  | normalize => "normalize"

/-- The arguments that a function expects, as messages show them. -/
def signature : ReportFunction → String
  | replace => "(string, string, string)"
  | firstGroup => "(string, string)"
  | choose => "(boolean, object, object)"
  | normalize => "(string)"

/-- A text with the first match of an expression replaced by what a template makes of it. -/
def replaceFirst (text pattern template : String) : Except PatternError String := do
  let compiled ← Pattern.compile pattern
  match compiled.pattern.search compiled.groups text with
  | none => return text
  | some found =>
    let m : NamedMatch := ⟨found, compiled.groups, compiled.names⟩
    return found.before ++ m.expand template ++ found.after

/-- The first group of the first match of an expression, empty without one. -/
def groupOfFirst (text pattern : String) : Except PatternError String := do
  let compiled ← Pattern.compile pattern
  match compiled.pattern.search compiled.groups text with
  | none => return ""
  | some found => return if compiled.groups = 0 then "" else found.group 1

variable {m : Type → Type} [Evaluating m]

/-- The call with arguments that a function does not expect. -/
def refuse (function : ReportFunction) : m Value :=
  fail (.wrongArguments function.title function.signature)

/-- The value of a text that a regular expression gives. -/
def textValue (result : Except PatternError String) : m Value :=
  match result with
  | .ok text => pure (.text text)
  | .error e => fail (.badPattern e)

/-- The values of arguments. -/
def values (focus : Focus) : List (Argument m) → m (List Value)
  | [] => pure []
  | a :: rest => do return (← a.value focus) :: (← values focus rest)

/-- The value of a call. -/
def call (function : ReportFunction) : Function m := fun f focus arguments =>
  match function, arguments with
  | choose, [condition, yes, no] => do
    if (← condition.value focus).toTruth then yes.value focus else no.value focus
  | choose, _ => choose.refuse
  | function, arguments => do
    match function, ← values focus arguments with
    | replace, [text, pattern, template] =>
      textValue (replaceFirst (text.toText f) (pattern.toText f) (template.toText f))
    | firstGroup, [text, pattern] => textValue (groupOfFirst (text.toText f) (pattern.toText f))
    | normalize, [text] => pure (.text (Text.normalizeLines (text.toText f)))
    | function, _ => function.refuse

/-- The functions of matchers by their names. -/
def table : List (String × Function m) := all.map fun function => (function.title, function.call)

end ReportFunction

end XPathAnnotator
