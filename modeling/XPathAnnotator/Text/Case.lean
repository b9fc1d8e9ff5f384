/-
**Small and capital letters.**

`toLower` and `toUpper` map a text letter by letter. Two rules go beyond the tables: a capital sigma
at the end of a word becomes a final sigma, and a letter may have a capital form of several characters.
-/

import XPathAnnotator.Text.CodePoints
import XPathAnnotator.Text.CaseTable
import XPathAnnotator.Text.CasedTable

namespace XPathAnnotator.Text

/-- The image of a code point in one of the runs from `low` up to `high`. -/
def CaseRuns.imageBetween? (runs : CaseRuns) (code low high : Nat) : Option Nat :=
  if _nonempty : low < high then
    let middle := (low + high) / 2
    match runs[middle]? with
    | none => none
    | some (first, last, step, image) =>
      if code < first then CaseRuns.imageBetween? runs code low middle
      else if last < code then CaseRuns.imageBetween? runs code (middle + 1) high
      else if (code - first) % step == 0 then some (image + (code - first)) else none
  else none
termination_by high - low

/-- The letter that a table of runs maps a character to. -/
def CaseRuns.image? (runs : CaseRuns) (c : Char) : Option Char :=
  (CaseRuns.imageBetween? runs c.toNat 0 runs.size).map Char.ofNat

/-- Whether a character has letter case and is not case-ignorable. -/
def isCased (c : Char) : Bool :=
  if c.toNat < 128 then c.isAlpha else casedCodePoints.contains c

/-- Whether a character is passed over when a neighbour with letter case is sought. -/
def isCaseIgnorable (c : Char) : Bool :=
  caseIgnorableCodePoints.contains c

/-- The small form of a letter by itself, where it is a single character. -/
def lowerLetter (c : Char) : Char :=
  if c.toNat < 128 then c.toLower else (lowerRuns.image? c).getD c

/-- Whether the first character that is not ignorable has letter case. -/
def startsCased (cs : List Char) : Bool :=
  match cs.dropWhile isCaseIgnorable with
  | [] => false
  | c :: _ => isCased c

/-- The small form of a text, where `before` is what precedes it, in reverse. -/
def lowerFrom (before : List Char) : List Char → List Char
  | [] => []
  | c :: rest =>
    let small :=
      if c == 'Σ' then (if startsCased before && !startsCased rest then ['ς'] else ['σ'])
      else if c == 'İ' then ['i', '\u0307']
      else [lowerLetter c]
    small ++ lowerFrom (c :: before) rest

/-- A text in small letters. -/
def toLower (text : String) : String :=
  String.ofList (lowerFrom [] text.toList)

/-- The capital form of a letter. -/
def upperLetter (c : Char) : List Char :=
  if c.toNat < 128 then [c.toUpper]
  else match upperRuns.image? c with
    | some image => [image]
    | none =>
      match upperExpansions.find? (·.1 == c.toNat) with
      | some (_, image) => image.map Char.ofNat
      | none => [c]

/-- A text in capital letters. -/
def toUpper (text : String) : String :=
  String.ofList (text.toList.flatMap upperLetter)

end XPathAnnotator.Text
