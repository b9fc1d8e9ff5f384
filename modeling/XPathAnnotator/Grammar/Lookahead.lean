/-
**Look-aheads.**

The look-aheads of an item in a state are the terminals that may follow its production there. They are
found in two parts: each kernel item is traced with a placeholder through the productions that start in
its state, which tells the look-aheads that arise on the way and the kernel items that inherit those of
the traced item; then look-aheads are handed on until nothing changes. `lookaheads` is the result and
`closure` completes a kernel with look-aheads by the productions that start within the state.
-/

import XPathAnnotator.Grammar.Automaton

namespace XPathAnnotator.Grammar

/-- The nonterminals whose productions start within a state, and the look-aheads of each. -/
structure Spread where
  reached : SymbolSet
  lookaheads : Array SymbolSet
deriving DecidableEq

namespace Numbered

/-- Notes that the productions of a symbol start within the state, with more look-aheads. -/
def note (g : Numbered) (s : Spread) (symbol : Option Nat) (more : SymbolSet) : Spread :=
  match symbol with
  | none => s
  | some a =>
    if g.isNonterminal a then ⟨s.reached.insert a, s.lookaheads.modify a (·.union more)⟩ else s

/-- What the items of a kernel start within their state. -/
def spreadSeeds (g : Numbered) (sets : Array SymbolSet) (kernel : List (Item × SymbolSet)) : Spread :=
  kernel.foldl (fun s (item, lookaheads) =>
    g.note s (g.nextSymbol? item) (following sets (g.restAfterNext item) lookaheads))
    ⟨.empty, Array.replicate g.nonterminalCount .empty⟩

/-- One round of starting the productions that begin with a nonterminal. Productions without
look-aheads start nothing. -/
def spreadStep (g : Numbered) (sets : Array SymbolSet) (s : Spread) : Spread :=
  g.productions.foldl (fun s p =>
    let lookaheads := s.lookaheads.getD p.left .empty
    if lookaheads.isEmpty then s
    else g.note s p.right.head? (following sets p.right.tail lookaheads)) s

/-- All that a kernel with look-aheads starts within its state. -/
def spread (g : Numbered) (sets : Array SymbolSet) (kernel : List (Item × SymbolSet)) : Spread :=
  saturate (g.spreadStep sets) (g.growth (g.nonterminalCount + 1)) (g.spreadSeeds sets kernel)

/-- The items of a state with their look-aheads, in ascending order. -/
def closure (g : Numbered) (sets : Array SymbolSet) (kernel : List (Item × SymbolSet)) :
    List (Item × SymbolSet) :=
  let s := g.spread sets kernel
  (List.range g.productions.size).flatMap fun p =>
    let own := kernel.filter (·.1.production == p)
    match g.productions[p]? with
    | none => own
    | some production =>
      if s.reached.contains production.left then
        let inherited := s.lookaheads.getD production.left .empty
        match own with
        | (⟨_, 0⟩, lookaheads) :: rest => (⟨p, 0⟩, lookaheads.union inherited) :: rest
        | _ => (⟨p, 0⟩, inherited) :: own
      else own

end Numbered

/-- The kernel items of all states in one row: state `k` has those from number `offsets[k]` on. -/
structure Slots where
  offsets : Array Nat
  count : Nat

namespace Slots

/-- The row of the kernel items of an automaton. -/
def of (a : Automaton) : Slots :=
  let (offsets, count) := a.kernels.foldl
    (fun (offsets, count) kernel => (offsets.push count, count + kernel.length)) (#[], 0)
  ⟨offsets, count⟩

/-- The number of a kernel item of a state. -/
def slot (slots : Slots) (a : Automaton) (state : Nat) (item : Item) : Nat :=
  slots.offsets.getD state 0 + (a.kernels.getD state []).idxOf item

end Slots

/-- What tracing yields: look-aheads by slot, and the pairs of slots of which the second inherits the
look-aheads of the first. -/
structure Traces where
  lookaheads : Array SymbolSet
  inheritance : List (Nat × Nat)

/-- Hands the look-aheads found for the items of a state over to the states that they lead to. -/
def traceItem (g : Numbered) (a : Automaton) (slots : Slots) (sets : Array SymbolSet) (state : Nat)
    (traces : Traces) (item : Item) : Traces :=
  let source := slots.slot a state item
  (g.closure sets [(item, .singleton g.placeholder)]).foldl (fun traces (reached, lookaheads) =>
    match g.nextSymbol? reached with
    | none => traces
    | some symbol =>
      match a.target? state symbol with
      | none => traces
      | some next =>
        let target := slots.slot a next ⟨reached.production, reached.dot + 1⟩
        ⟨traces.lookaheads.modify target (·.union (lookaheads.erase g.placeholder)),
          if lookaheads.contains g.placeholder then (source, target) :: traces.inheritance
          else traces.inheritance⟩) traces

/-- The traces of all kernel items; the start has the end of the input as its look-ahead. -/
def traceAll (g : Numbered) (a : Automaton) (slots : Slots) (sets : Array SymbolSet) : Traces :=
  (List.range a.kernels.size).foldl (fun traces state =>
    (a.kernels.getD state []).foldl (traceItem g a slots sets state) traces)
    ⟨(Array.replicate slots.count .empty).modify (slots.slot a 0 ⟨0, 0⟩) (·.insert g.endMark), []⟩

/-- One round of handing look-aheads on. -/
def inheritStep (inheritance : List (Nat × Nat)) (sets : Array SymbolSet) : Array SymbolSet :=
  inheritance.foldl (fun sets (source, target) =>
    sets.modify target (·.union (sets.getD source .empty))) sets

/-- The kernels of all states with the look-aheads of their items. -/
def lookaheads (g : Numbered) (a : Automaton) : Array (List (Item × SymbolSet)) :=
  let slots := Slots.of a
  let traces := traceAll g a slots g.first
  let sets := saturate (inheritStep traces.inheritance) (g.growth slots.count) traces.lookaheads
  ((List.range a.kernels.size).map fun state =>
    (a.kernels.getD state []).map fun item =>
      (item, sets.getD (slots.slot a state item) .empty)).toArray

end XPathAnnotator.Grammar
