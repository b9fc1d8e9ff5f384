/-
**Wildcards.**

In a pattern for names, a star stands for any characters, a question mark for one, and characters in
brackets for one among them; an exclamation mark after the bracket turns the choice round. A range whose
ends are in the wrong order is empty, and a bracket that is not closed stands for itself.
-/

namespace XPathAnnotator.Path

/-- A part of a choice between characters. -/
inductive Choice where
  | one (c : Char)
  | range (low high : Char)
deriving DecidableEq

/-- Whether a part of a choice has a character. -/
def Choice.has (choice : Choice) (c : Char) : Bool :=
  match choice with
  | one d => c == d
  | range low high => low ≤ c && c ≤ high

/-- A piece of a pattern. -/
inductive Wildcard where
  | many
  | any
  | among (choices : List Choice)
  | except (choices : List Choice)
  | exactly (c : Char)
deriving DecidableEq

namespace Wildcard

/-- Whether a piece that stands for one character stands for this one. -/
def has (piece : Wildcard) (c : Char) : Bool :=
  match piece with
  | many => false
  | any => true
  | among choices => choices.any (·.has c)
  | except choices => !choices.any (·.has c)
  | exactly d => c == d

/-- Whether pieces stand for a row of characters. -/
def fits : List Wildcard → List Char → Bool
  | [], cs => cs.isEmpty
  | many :: pieces, [] => fits pieces []
  | many :: pieces, c :: cs => fits pieces (c :: cs) || fits (many :: pieces) cs
  | _ :: _, [] => false
  | piece :: pieces, c :: cs => piece.has c && fits pieces cs
termination_by pieces cs => pieces.length + cs.length

/-- The parts of a choice that is written in brackets. Ranges without characters are left out. -/
def choicesOf : List Char → List Choice
  | low :: '-' :: high :: rest =>
    if low ≤ high then .range low high :: choicesOf rest else choicesOf rest
  | c :: rest => .one c :: choicesOf rest
  | [] => []

/-- The piece of what is written between brackets. An exclamation mark that comes to the front because
the ranges before it are empty turns the choice round as well. -/
def ofBrackets : List Char → Wildcard
  | '!' :: rest => .except (choicesOf rest)
  | cs =>
    match choicesOf cs with
    | .one '!' :: choices => .except choices
    | .range '!' high :: choices => .except (.one '-' :: .one high :: choices)
    | choices => .among choices

/-- What stands before the bracket that closes a choice, and after it. The first character of a choice
is not taken for the bracket that closes it. -/
def closeBrackets? (cs : List Char) : Option (List Char × List Char) :=
  let start := match cs with
    | '!' :: ']' :: _ => 2
    | '!' :: _ => 1
    | ']' :: _ => 1
    | _ => 0
  match (cs.drop start).dropWhile (· != ']') with
  | [] => none
  | _ :: after => some (cs.take start ++ (cs.drop start).takeWhile (· != ']'), after)

/-- The pieces of a pattern; `fuel` is at least the number of its characters. -/
def piecesFrom : Nat → List Char → List Wildcard
  | 0, _ => []
  | _, [] => []
  | fuel + 1, '*' :: rest => .many :: piecesFrom fuel (rest.dropWhile (· == '*'))
  | fuel + 1, '?' :: rest => .any :: piecesFrom fuel rest
  | fuel + 1, '[' :: rest =>
    match closeBrackets? rest with
    | some (inside, after) => ofBrackets inside :: piecesFrom fuel after
    | none => .exactly '[' :: piecesFrom fuel rest
  | fuel + 1, c :: rest => .exactly c :: piecesFrom fuel rest

/-- The pieces of a pattern. -/
def ofPattern (pattern : String) : List Wildcard :=
  piecesFrom pattern.toList.length pattern.toList

/-- Whether a pattern stands for a text. -/
def isMatch (pattern text : String) : Bool := fits (ofPattern pattern) text.toList

/-- Whether a text has characters that stand for others. -/
def isPattern (text : String) : Bool :=
  text.toList.any fun c => c == '*' || c == '?' || c == '['

end Wildcard

end XPathAnnotator.Path
