/-
**Tables without conflicts.**

`Decided` gathers what completeness and termination rest on: the table of a grammar without reserved names in
which every nonterminal derives some text, and in which no conflict was recorded. There the expected terminals
decide: the table reads a terminal that an item has next (`Decided.reads`), applies a production before the
terminals expected after its end (`Decided.reduces`) and accepts at the end of the implicit production
(`Decided.accepts`), each to the exclusion of the others.
-/

import Mathlib
import XPathAnnotator.Proofs.Grammar.Soundness

namespace XPathAnnotator.Grammar

open Automaton (Explored)

/-- The table of a grammar whose nonterminals all derive some text, without conflicts. -/
structure Decided (g : Grammar) (t : Table) : Prop where
  plain : g.Unreserved
  made : Table.Made g t
  unambiguous : t.conflicts = []
  derives : ∀ s ∈ g.nonterminals, ∃ tree, g.Derives s tree

/-- A terminal is expected after an item of a state of the automaton of a grammar. -/
abbrev ExpectsAt (g : Grammar) (k : Nat) (item : Item) (x : Nat) : Prop :=
  Expects g.numbers g.automaton k item x

/-- Where every nonterminal derives some text, every symbol starts with some terminal. -/
theorem productive_of_derives {g : Grammar} (plain : g.Unreserved)
    (texts : ∀ s ∈ g.nonterminals, ∃ tree, g.Derives s tree) : g.numbers.Productive := by
  intro x below
  obtain ⟨s, inSymbols, rfl⟩ := plain.unmarked.exists_symbol below
  rcases mem_symbols.mp inSymbols with isLeft | isTerminal
  · obtain ⟨tree, derives⟩ := texts s isLeft
    obtain ⟨token, _, _, _, starts⟩ := derives.exists_first inSymbols
    exact ⟨_, starts⟩
  · exact ⟨_, .terminal ((code_mem_terminal_iff inSymbols).mpr isTerminal)⟩

namespace Decided

variable {g : Grammar} {t : Table}

theorem proper (decided : Decided g t) : g.numbers.Proper := ofGrammar_proper decided.plain

theorem explored (decided : Decided g t) : Explored g.numbers g.automaton :=
  explored_automaton decided.plain

/-- Every symbol starts with some terminal. -/
theorem productive (decided : Decided g t) : g.numbers.Productive :=
  productive_of_derives decided.plain decided.derives

/-- What is expected after an item is among its look-aheads in the closure of the state. -/
theorem expects_iff (decided : Decided g t) {k x : Nat} {kernel : List Item}
    (atState : g.automaton.kernels[k]? = some kernel) {item : Item} :
    g.ExpectsAt k item x ↔ ∃ lookaheads, (item, lookaheads) ∈ g.closureAt k ∧ x ∈ lookaheads := by
  have fit := fit_kernelLookaheads decided.proper decided.explored atState
  rw [closureAt, Numbered.mem_closure_lookaheads decided.proper fit,
    closes_iff_expects decided.proper decided.explored decided.productive atState]

/-- Every item of a state is in its closure. -/
theorem exists_mem_closureAt (decided : Decided g t) {k : Nat} {kernel : List Item}
    (atState : g.automaton.kernels[k]? = some kernel) {item : Item}
    (member : item ∈ g.numbers.itemsOf kernel) : ∃ lookaheads, (item, lookaheads) ∈ g.closureAt k := by
  obtain ⟨x, expects⟩ := exists_expects decided.proper decided.explored decided.productive atState member
  obtain ⟨lookaheads, inClosure, _⟩ := (decided.expects_iff atState).mp expects
  exact ⟨lookaheads, inClosure⟩

/-- **The table reads every terminal that an item has next.** -/
theorem reads (decided : Decided g t) {k : Nat} {kernel : List Item}
    (atState : g.automaton.kernels[k]? = some kernel) {item : Item}
    (member : item ∈ g.numbers.itemsOf kernel) {s : String}
    (next : g.numbers.nextSymbol? item = some (g.code s)) (isTerminal : s ∈ g.terminals) :
    ∃ j, g.automaton.target? k (g.code s) = some j ∧ t.action? k s = some (.shift j) := by
  obtain ⟨j, target, _⟩ := decided.explored.target_of_next decided.proper atState member next
  obtain ⟨lookaheads, inClosure⟩ := decided.exists_mem_closureAt atState member
  exact ⟨j, target, decided.made.action?_of_calls decided.plain decided.unambiguous atState
    (.shift inClosure next isTerminal target)⟩

theorem nextSymbol?_end {p : Nat} {production : Production} (found : g.productions[p]? = some production) :
    g.numbers.nextSymbol? ⟨p, production.right.length⟩ = none := by
  cases ends : g.numbers.nextSymbol? ⟨p, production.right.length⟩ with
  | none => rfl
  | some x =>
    obtain ⟨q, found', atDot⟩ := Numbered.nextSymbol?_eq_some.mp ends
    obtain rfl := Option.some.inj ((numbers_productions found).symm.trans found')
    have inside := (List.getElem?_eq_some_iff.mp atDot).1
    rw [Grammar.numbered, List.length_map] at inside
    exact absurd inside (Nat.lt_irrefl _)

/-- **The table applies a production before the terminals expected after its end.** -/
theorem reduces (decided : Decided g t) {k p : Nat} {production : Production}
    (found : g.productions[p]? = some production) (explicit : p ≠ 0) {s : String}
    (isTerminal : s ∈ g.terminals) (expects : g.ExpectsAt k ⟨p, production.right.length⟩ (g.code s)) :
    t.action? k s = some (.reduce p) := by
  obtain ⟨kernel, atState, _⟩ := expects.mem_itemsOf decided.proper decided.explored
  obtain ⟨lookaheads, inClosure, expected⟩ := (decided.expects_iff atState).mp expects
  exact decided.made.action?_of_calls decided.plain decided.unambiguous atState
    (.reduce inClosure (nextSymbol?_end found) explicit isTerminal expected)

/-- **The table accepts at the end of the implicit production.** -/
theorem accepts (decided : Decided g t) {k x : Nat} (expects : g.ExpectsAt k ⟨0, 1⟩ x) :
    t.action? k endSymbol = some .accept := by
  obtain ⟨kernel, atState, _⟩ := expects.mem_itemsOf decided.proper decided.explored
  obtain ⟨lookaheads, inClosure, _⟩ := (decided.expects_iff atState).mp expects
  have implicit : g.productions[0]? = some g.acceptProduction := rfl
  exact decided.made.action?_of_calls decided.plain decided.unambiguous atState
    (.accept inClosure (nextSymbol?_end implicit) rfl)

/-- Where the table applies a production, the terminal is expected after its end. -/
theorem expects_of_reduce (decided : Decided g t) {k p : Nat} {s : String}
    (acts : t.action? k s = some (.reduce p)) :
    ∃ production, g.productions[p]? = some production ∧ p ≠ 0 ∧ s ∈ g.terminals ∧
      g.ExpectsAt k ⟨p, production.right.length⟩ (g.code s) := by
  obtain ⟨⟨kernel, atState⟩, calls⟩ := decided.made.calls_of_action? decided.plain acts
  obtain ⟨production, lookaheads, found, explicit, isTerminal, inClosure, expected⟩ :=
    calls.exists_end decided.plain atState
  exact ⟨production, found, explicit, isTerminal, (decided.expects_iff atState).mpr ⟨lookaheads, inClosure, expected⟩⟩

/-- What is expected after an item of the implicit production is the end mark. -/
theorem eq_end_of_implicit (decided : Decided g t) {k x : Nat} {item : Item}
    (expects : g.ExpectsAt k item x) (implicit : item.production = 0) : x = g.code endSymbol := by
  induction expects with
  | start => exact ofGrammar_endMark g
  | @spread k i b y x item p _ next found left _ _ =>
    obtain rfl : i = 0 := implicit
    obtain ⟨s, first⟩ := decided.proper.implicit
    obtain rfl := Option.some.inj (first.symm.trans found)
    obtain ⟨q, found', atDot⟩ := Numbered.nextSymbol?_eq_some.mp next
    exact absurd left.symm (decided.proper.right_ne_zero found' b (List.mem_of_getElem? atDot))
  | advance _ _ ih => exact ih implicit

/-- What the symbol after a dot starts with can be read. -/
theorem exists_item_of_starts {n : Numbered} (proper : n.Proper) {kernel : List Item} {s x : Nat}
    (starts : n.Starts s x) : ∀ item ∈ n.itemsOf kernel, n.nextSymbol? item = some s →
      ∃ other ∈ n.itemsOf kernel, n.nextSymbol? other = some x := by
  induction starts with
  | terminal _ => exact fun item member next => ⟨item, member, next⟩
  | @production k p s rest x found shape _ ih =>
    intro item member next
    have reaches := Numbered.reaches_of_next member next (proper.left_lt found)
    refine ih ⟨k, 0⟩ (Numbered.mem_itemsOf.mpr (Or.inr ⟨rfl, p, found, reaches⟩)) ?_
    exact Numbered.nextSymbol?_eq_some.mpr ⟨p, found, by simp [shape]⟩

end Decided

end XPathAnnotator.Grammar
