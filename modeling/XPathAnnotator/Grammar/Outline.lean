/-
**Grammars and tables as plain data.**

The outline of a grammar tells its rules and symbols, the outline of a table its states and what a parser
does in each of them.
-/

import XPathAnnotator.Data.Datum
import XPathAnnotator.Grammar.Table

namespace XPathAnnotator.Grammar

open XPathAnnotator.Data

/-- A list of texts as plain data. -/
def textsOutline (texts : List String) : Setting := .list (texts.map .text)

/-- A natural number as plain data. -/
def countOutline (n : Nat) : Setting := .integer n

/-- A production by its forms in messages and in writing, and the length of its right side. -/
def Production.outline (p : Production) : Setting :=
  .list [.text p.shown, .text p.text, countOutline p.right.length]

/-- The rules and the symbols of a grammar. -/
def outline (g : Grammar) : List (String × Setting) :=
  [("grammar", .text g.shown), ("rules", .list (g.rules.map Production.outline)),
    ("terminals", textsOutline g.terminals), ("nonterminals", textsOutline g.nonterminals)]

/-- The short form of an entry in a table of actions: a letter and a number. -/
def Action.short : Option Action → String
  | none => ""
  | some (.shift s) => "s" ++ toString s
  | some (.reduce p) => "r" ++ toString p
  | some .accept => "a0"

/-- A state to go to, null if there is none. -/
def targetOutline : Option Nat → Setting
  | some state => countOutline state
  | none => .null

/-- The kernel of a state as plain data. -/
def kernelOutline (kernel : List Item) : Setting :=
  .list (kernel.map fun item => .list [countOutline item.production, countOutline item.dot])

/-- The states of a table and what is done in each. -/
def Table.outline (t : Table) : List (String × Setting) :=
  [("repr", .text t.shown), ("states", countOutline t.states),
    ("conflicts", textsOutline (t.conflicts.map Conflict.message)),
    ("nullable", textsOutline t.grammar.nullable),
    ("first", .list (t.firstSets.map fun (name, set) => .list [.text name, textsOutline set])),
    ("kernels", .list (t.automaton.kernels.toList.map kernelOutline)),
    ("action", .list (t.action.toList.map fun row => textsOutline (row.toList.map Action.short))),
    ("goto", .list (t.goto.toList.map fun row => .list (row.toList.map targetOutline))),
    ("expected", .list ((List.range t.states).map fun state => textsOutline (t.expected state)))]

end XPathAnnotator.Grammar
