/-
**Context-free grammars.**

A grammar is a start symbol and productions, written as texts such as `Sum : Sum + Product`. No
production is empty. Symbols on the left of a production are the nonterminals, all others the
terminals; the mark `EOF` of the end of the input is always a terminal. Production 0 is the implicit
one from `$accept` to the start symbol.

`Grammar.add` reads a production, and `GrammarError` lists the ways in which a grammar is refused.
-/

import XPathAnnotator.Text.Blank
import XPathAnnotator.Text.Quoted
import XPathAnnotator.Text.Pieces

namespace XPathAnnotator.Grammar

open XPathAnnotator.Text

/-- The nonterminal of the implicit production. -/
def acceptSymbol : String := "$accept"

/-- The terminal that ends every input. -/
def endSymbol : String := "EOF"

/-- A production: a symbol and the symbols that it may stand for. -/
structure Production where
  left : String
  right : List String
  right_ne_nil : right ≠ []

/-- The written form of a production. -/
def Production.text (p : Production) : String :=
  p.left ++ " : " ++ String.intercalate " " p.right

/-- A production as shown in messages. -/
def Production.shown (p : Production) : String :=
  "Production(" ++ quoted p.text ++ ")"

/-- The ways in which a grammar is refused. -/
inductive GrammarError where
  | invalidProduction (rule : String)
  | missingStart (symbol : String)
  | reduceConflict (state : Nat) (terminal : String) (first second : Production)
  | alreadyBuilt (parser : String)
  | notBuilt (parser : String)
  | missingProduction (number : Nat)

/-- The wording of an error. -/
def GrammarError.message : GrammarError → String
  | invalidProduction rule => "invalid production " ++ quoted rule
  | missingStart symbol => "missing productions for start symbol " ++ quoted symbol
  | reduceConflict state terminal first second =>
    s!"reduce-reduce conflict in state {state} on " ++ quoted terminal ++ ": " ++ first.text ++
      " / " ++ second.text
  | alreadyBuilt parser => "parser " ++ quoted parser ++ " is already built"
  | notBuilt parser => "parser " ++ quoted parser ++ " is not built"
  | missingProduction number => s!"there is no production {number}"

/-- The production that a rule is written for: the first ` : ` divides its sides, and neither side may
be blank. -/
def Production.ofRule? (rule : String) : Option Production :=
  match splitAtFirst? [' ', ':', ' '] rule.toList with
  | none => none
  | some (before, after) =>
    let left := trimSpaces (String.ofList before)
    match words (String.ofList after) with
    | [] => none
    | symbol :: symbols =>
      if left.isEmpty then none else some ⟨left, symbol :: symbols, List.cons_ne_nil _ _⟩

end XPathAnnotator.Grammar

namespace XPathAnnotator

/-- A grammar: its start symbol and its productions in the order in which they were added. -/
structure Grammar where
  start : String
  rules : List Grammar.Production

end XPathAnnotator

namespace XPathAnnotator.Grammar

open XPathAnnotator.Text

/-- The grammar with a start symbol and no productions. -/
def empty (start : String) : Grammar := ⟨start, []⟩

/-- A grammar with one more production. -/
def add (g : Grammar) (rule : String) : Except GrammarError Grammar :=
  match Production.ofRule? rule with
  | none => .error (.invalidProduction rule)
  | some p => .ok ⟨g.start, g.rules ++ [p]⟩

/-- The implicit production. -/
def acceptProduction (g : Grammar) : Production :=
  ⟨acceptSymbol, [g.start], List.cons_ne_nil _ _⟩

/-- All productions, the implicit one first. -/
def productions (g : Grammar) : List Production :=
  g.acceptProduction :: g.rules

/-- The distinct elements of a list in the order of their first occurrence, after those of `seen`. -/
def distinctAfter (seen : List String) : List String → List String
  | [] => []
  | s :: rest =>
    if seen.contains s then distinctAfter seen rest else s :: distinctAfter (s :: seen) rest

/-- The nonterminals, in the order in which they are first defined. -/
def nonterminals (g : Grammar) : List String :=
  distinctAfter [] (g.productions.map Production.left)

/-- The terminals, in the order in which they are first used, and last the end of the input. -/
def terminals (g : Grammar) : List String :=
  distinctAfter g.nonterminals (g.productions.flatMap Production.right) ++ [endSymbol]

/-- All symbols, the nonterminals first. -/
def symbols (g : Grammar) : List String :=
  g.nonterminals ++ g.terminals

/-- The symbols that derive the empty text: none, since no production is empty. -/
def nullable (_ : Grammar) : List String := []

/-- A grammar as shown in messages. -/
def shown (g : Grammar) : String :=
  "Grammar(start=" ++ quoted g.start ++ ")"

end XPathAnnotator.Grammar
