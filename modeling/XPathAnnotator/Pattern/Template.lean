/-
**Templates of replacements.**

A template is a text in which `$$` stands for a dollar sign, `$&` for the match, the dollar sign with a
backquote or a quote for the text before or after it, `$n` and `$nn` for groups by number and `$<name>` for
groups by name. A group that has not matched is empty; what refers to no group stays as it is.
-/

import XPathAnnotator.Pattern.Match
import XPathAnnotator.Text.Word

namespace XPathAnnotator

/-- A match with the number of groups of its expression and their names. -/
structure NamedMatch where
  found : Match
  groups : Nat
  names : List (String × Nat)

namespace NamedMatch

/-- The text of a group by its number. -/
def numbered (m : NamedMatch) (number : Nat) : List Char := (m.found.group number).toList

/-- Whether there is a group of a number. -/
def hasGroup (m : NamedMatch) (number : Nat) : Bool := 0 < number && number ≤ m.groups

/-- What one digit after a dollar sign stands for. -/
def oneDigit (m : NamedMatch) (d : Char) : List Char :=
  if m.hasGroup (Text.digitValue d) then m.numbered (Text.digitValue d) else ['$', d]

/-- What two digits after a dollar sign stand for: a group of both, or one of the first with the second
digit behind it. -/
def twoDigits (m : NamedMatch) (d e : Char) : List Char :=
  let both := Text.digitValue d * 10 + Text.digitValue e
  if m.hasGroup both then m.numbered both
  else if m.hasGroup (Text.digitValue d) then m.numbered (Text.digitValue d) ++ [e]
  else ['$', d, e]

/-- What a name after a dollar sign stands for. -/
def named (m : NamedMatch) (name : List Char) : List Char :=
  match m.names.lookup (String.ofList name) with
  | some number => m.numbered number
  | none => '$' :: '<' :: name ++ ['>']

/-- Expands a template. -/
def expandIn (m : NamedMatch) : List Char → List Char
  | [] => []
  | '$' :: rest =>
    match rest with
    | '$' :: after => '$' :: m.expandIn after
    | '&' :: after => m.found.whole.toList ++ m.expandIn after
    | '`' :: after => m.found.before.toList ++ m.expandIn after
    | '\'' :: after => m.found.after.toList ++ m.expandIn after
    | '<' :: after =>
      let name := after.takeWhile (· != '>')
      if name.length < after.length then m.named name ++ m.expandIn (after.drop (name.length + 1))
      else '$' :: m.expandIn ('<' :: after)
    | d :: e :: after =>
      if Text.isDigit d then
        if Text.isDigit e then m.twoDigits d e ++ m.expandIn after
        else m.oneDigit d ++ m.expandIn (e :: after)
      else '$' :: m.expandIn (d :: e :: after)
    | [d] => if Text.isDigit d then m.oneDigit d else '$' :: m.expandIn [d]
    | [] => ['$']
  | c :: rest => c :: m.expandIn rest
termination_by cs => cs.length
decreasing_by all_goals simp only [List.length_cons, List.length_drop]; omega

/-- Expands a template for a match. -/
def expand (m : NamedMatch) (template : String) : String := String.ofList (m.expandIn template.toList)

end NamedMatch

end XPathAnnotator
