/-
**Grammars with numbered symbols.**

The table generator works on numbers: a symbol is its first position among the symbols of the grammar,
the nonterminals first. Numbers agree exactly when names do. A set of symbols is the natural number whose
binary digits say which symbols belong to it, so that union and equality are single operations.

* `SymbolSet` — sets of symbols;
* `saturate` — repeats a step until nothing changes, which finds all sets of the table generator;
* `Numbered.first` — the terminals that the texts of a symbol may begin with.
-/

import XPathAnnotator.Grammar.Basic

namespace XPathAnnotator.Grammar

/-! ### Finite sets of symbols -/

/-- A set of symbols: symbol `s` belongs to it if bit `s` is set. -/
structure SymbolSet where
  bits : Nat
deriving DecidableEq, Inhabited

namespace SymbolSet

/-- The set without members. -/
def empty : SymbolSet := ⟨0⟩

/-- The set with one member. -/
def singleton (symbol : Nat) : SymbolSet := ⟨1 <<< symbol⟩

/-- The members of either set. -/
def union (s t : SymbolSet) : SymbolSet := ⟨s.bits ||| t.bits⟩

/-- A set with one more member. -/
def insert (s : SymbolSet) (symbol : Nat) : SymbolSet := s.union (singleton symbol)

/-- Whether a symbol belongs to a set. -/
def contains (s : SymbolSet) (symbol : Nat) : Bool := s.bits.testBit symbol

/-- Whether a set has no members. -/
def isEmpty (s : SymbolSet) : Bool := s.bits == 0

/-- A set without one of its members. -/
def erase (s : SymbolSet) (symbol : Nat) : SymbolSet :=
  if s.contains symbol then ⟨s.bits ^^^ (singleton symbol).bits⟩ else s

/-- The members of a set below a bound, in ascending order. -/
def toList (s : SymbolSet) (bound : Nat) : List Nat :=
  (List.range bound).filter s.contains

end SymbolSet

/-- Repeats a step until it changes nothing, at most as often as the fuel allows. -/
def saturate {α : Type} [DecidableEq α] (step : α → α) : Nat → α → α
  | 0, a => a
  | fuel + 1, a =>
    let next := step a
    if next = a then a else saturate step fuel next

/-! ### Numbered symbols -/

/-- A production whose symbols are numbers. -/
structure NumberedProduction where
  left : Nat
  right : List Nat
deriving Inhabited

/-- A grammar whose symbols are numbers: those below `nonterminalCount` are the nonterminals. -/
structure Numbered where
  nonterminalCount : Nat
  symbolCount : Nat
  productions : Array NumberedProduction
  terminal : SymbolSet
  endMark : Nat
  placeholder : Nat

namespace Numbered

/-- The name of the look-ahead that stands for any look-ahead of an item while it is traced. -/
def placeholderName : String := "#"

/-- A grammar with its symbols replaced by their numbers. -/
def ofGrammar (g : Grammar) : Numbered :=
  let symbols := g.symbols
  let code (s : String) : Nat := symbols.idxOf s
  { nonterminalCount := g.nonterminals.length
    symbolCount := symbols.length
    productions := (g.productions.map fun p => ⟨code p.left, p.right.map code⟩).toArray
    terminal := g.terminals.foldl (fun set s => set.insert (code s)) .empty
    endMark := code endSymbol
    placeholder := code placeholderName }

/-- Whether a symbol is on the left of a production. -/
def isNonterminal (g : Numbered) (symbol : Nat) : Bool := symbol < g.nonterminalCount

/-- A bound for how often sets of symbols, one for each of `count` places, can grow. -/
def growth (g : Numbered) (count : Nat) : Nat := count * (g.symbolCount + 1) + 1

/-- The sets of first terminals before any production is used. -/
def firstSeeds (g : Numbered) : Array SymbolSet :=
  ((List.range g.symbolCount).map fun s =>
    if g.terminal.contains s then SymbolSet.singleton s else .empty).toArray

/-- One round of adding to each left side the first terminals of its productions. -/
def firstStep (g : Numbered) (sets : Array SymbolSet) : Array SymbolSet :=
  g.productions.foldl (fun sets p =>
    match p.right with
    | [] => sets
    | s :: _ => sets.modify p.left (·.union (sets.getD s .empty))) sets

/-- The terminals that the texts of each symbol may begin with. -/
def first (g : Numbered) : Array SymbolSet :=
  saturate g.firstStep (g.growth g.symbolCount) g.firstSeeds

/-- The terminals that may follow a symbol, given the symbols after it and the look-aheads of the whole
production. Without look-aheads there are none. -/
def following (sets : Array SymbolSet) (rest : List Nat) (lookaheads : SymbolSet) : SymbolSet :=
  if lookaheads.isEmpty then .empty
  else match rest with
    | [] => lookaheads
    | s :: _ => sets.getD s .empty

end Numbered

end XPathAnnotator.Grammar
