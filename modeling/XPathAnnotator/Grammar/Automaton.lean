/-
**The item automaton.**

An item is a production with a dot among its symbols. A state of the automaton is known by its kernel,
the items that the step into it has moved the dot of; reading a symbol moves the dot over it. States are
numbered in the order in which they are found, breadth first, with the symbols in the order of the
grammar. `Automaton.of` builds the automaton.
-/

import XPathAnnotator.Grammar.Numbered

namespace XPathAnnotator.Grammar

/-- A production with a dot before its symbol number `dot`. -/
structure Item where
  production : Nat
  dot : Nat
deriving DecidableEq, Inhabited

namespace Item

/-- Whether an item comes before another: by production, then by dot. -/
def before (a b : Item) : Bool :=
  a.production < b.production || (a.production == b.production && a.dot < b.dot)

/-- Puts an item into an ascending list that does not hold it yet. -/
def insertInto (item : Item) : List Item → List Item
  | [] => [item]
  | other :: rest =>
    if item = other then other :: rest
    else if item.before other then item :: other :: rest
    else other :: insertInto item rest

end Item

namespace Numbered

/-- The symbol after the dot of an item. -/
def nextSymbol? (g : Numbered) (item : Item) : Option Nat :=
  match g.productions[item.production]? with
  | none => none
  | some p => p.right[item.dot]?

/-- The symbols after the one that follows the dot. -/
def restAfterNext (g : Numbered) (item : Item) : List Nat :=
  match g.productions[item.production]? with
  | none => []
  | some p => p.right.drop (item.dot + 1)

/-- The set of a symbol if it is a nonterminal. -/
def nonterminalSet (g : Numbered) (symbol : Option Nat) : SymbolSet :=
  match symbol with
  | some s => if g.isNonterminal s then .singleton s else .empty
  | none => .empty

/-- One round of adding the first symbols of the productions of the nonterminals reached. -/
def reachStep (g : Numbered) (reached : SymbolSet) : SymbolSet :=
  g.productions.foldl (fun reached p =>
    if reached.contains p.left then reached.union (g.nonterminalSet p.right.head?) else reached)
    reached

/-- The nonterminals whose productions start within a state of the given kernel. -/
def reached (g : Numbered) (kernel : List Item) : SymbolSet :=
  saturate g.reachStep (g.nonterminalCount + 1)
    (kernel.foldl (fun set item => set.union (g.nonterminalSet (g.nextSymbol? item))) .empty)

/-- The items of a state: its kernel, and the productions that start within it. -/
def itemsOf (g : Numbered) (kernel : List Item) : List Item :=
  let reached := g.reached kernel
  kernel ++ (List.range g.productions.size).filterMap fun p =>
    match g.productions[p]? with
    | some production => if reached.contains production.left then some ⟨p, 0⟩ else none
    | none => none

/-- The kernel of the state that reading a symbol leads to. -/
def advance (g : Numbered) (items : List Item) (symbol : Nat) : List Item :=
  items.foldl (fun kernel item =>
    if g.nextSymbol? item = some symbol then Item.insertInto ⟨item.production, item.dot + 1⟩ kernel
    else kernel) []

/-- The number of items of a grammar. -/
def itemCount (g : Numbered) : Nat :=
  g.productions.foldl (fun count p => count + p.right.length + 1) 0

end Numbered

/-- The states by their kernels, and for each state its transitions `(symbol, state)`. -/
structure Automaton where
  kernels : Array (List Item)
  transitions : Array (List (Nat × Nat))

namespace Automaton

/-- The state that a symbol leads to. -/
def target? (a : Automaton) (state symbol : Nat) : Option Nat :=
  match a.transitions[state]? with
  | none => none
  | some row => row.lookup symbol

/-- The number of a kernel, which becomes a new state if it is none yet. -/
def stateOf (kernels : Array (List Item)) (kernel : List Item) : Nat × Array (List Item) :=
  match kernels.idxOf? kernel with
  | some k => (k, kernels)
  | none => (kernels.size, kernels.push kernel)

/-- The transitions of a state on the given symbols, and the states known after finding them. -/
def expand (g : Numbered) (items : List Item) (kernels : Array (List Item)) :
    List Nat → List (Nat × Nat) × Array (List Item)
  | [] => ([], kernels)
  | symbol :: symbols =>
    match g.advance items symbol with
    | [] => expand g items kernels symbols
    | kernel =>
      let (k, kernels) := stateOf kernels kernel
      let (row, kernels) := expand g items kernels symbols
      ((symbol, k) :: row, kernels)

/-- Visits the states from number `transitions.size` on, until all known states are visited. -/
def explore (g : Numbered) (a : Automaton) : Nat → Automaton
  | 0 => a
  | fuel + 1 =>
    match a.kernels[a.transitions.size]? with
    | none => a
    | some kernel =>
      let (row, kernels) := expand g (g.itemsOf kernel) a.kernels (List.range g.symbolCount)
      explore g ⟨kernels, a.transitions.push row⟩ fuel

/-- The automaton of a grammar. There are no more states than sets of items. -/
def of (g : Numbered) : Automaton :=
  explore g ⟨#[[⟨0, 0⟩]], #[]⟩ (Nat.pow 2 g.itemCount + 1)

end Automaton

end XPathAnnotator.Grammar
