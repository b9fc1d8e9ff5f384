/-
**Tables without conflicts.**

If no state of a grammar calls for two actions before one terminal, then the rows of its table are made without
a conflict. A simple grammar is such a grammar, and if every nonterminal derives some text its table is decided.

* `exists_table_of_calls` — one action at most for each state and terminal makes a table without conflicts;
* `calls_unique` — so it is in a simple grammar;
* `exists_decided` — the table of a simple grammar.
-/

import Mathlib
import XPathAnnotator.Proofs.Grammar.Simple

namespace XPathAnnotator.Grammar

open Automaton (Explored)

variable {g : Grammar}

/-! ### Rows without conflicts -/

namespace Table

/-- The cells of a row hold actions of a list only. -/
def HoldsOnly (terminals : List String) (calls : List (String × Action)) (s : RowState) : Prop :=
  ∀ column act, s.row.getD column none = some act →
    ∃ name, (name, act) ∈ calls ∧ columnIn terminals name = some column

theorem exists_foldlM_setAction {productions : Array Production} {terminals : List String} {state : Nat}
    (all : List (String × Action)) (unique : ∀ s act act', (s, act) ∈ all → (s, act') ∈ all → act = act')
    {calls : List (String × Action)} (within : ∀ call ∈ calls, call ∈ all) {before : RowState}
    (holds : HoldsOnly terminals all before) :
    ∃ after, calls.foldlM (fun (s : RowState) (call : String × Action) =>
      setAction productions terminals state call.1 call.2 s) before = .ok after ∧
        after.conflicts = before.conflicts := by
  induction calls generalizing before with
  | nil => exact ⟨before, rfl, rfl⟩
  | cons call calls ih =>
    obtain ⟨name, action⟩ := call
    have inAll : (name, action) ∈ all := within _ List.mem_cons_self
    have entered : ∃ middle, setAction productions terminals state name action before = .ok middle ∧
        middle.conflicts = before.conflicts := by
      unfold setAction
      split
      · exact ⟨before, rfl, rfl⟩
      · rename_i column found
        split
        · exact ⟨_, rfl, rfl⟩
        · rename_i current occupied
          obtain ⟨other, inCalls, atColumn⟩ := holds column current occupied
          obtain rfl := columnIn_inj found atColumn
          rw [if_pos (unique _ _ _ inCalls inAll)]
          exact ⟨before, rfl, rfl⟩
    obtain ⟨middle, made, same⟩ := entered
    have holdsMiddle : HoldsOnly terminals all middle := by
      intro column act cell
      rcases (enters_setAction made).sound column act cell with old | ⟨atColumn, rfl⟩
      · exact holds column act old
      · exact ⟨name, inAll, atColumn⟩
    obtain ⟨after, rest, sameAfter⟩ := ih (fun call member => within call (List.mem_cons_of_mem _ member))
      holdsMiddle
    refine ⟨after, ?_, sameAfter.trans same⟩
    rw [List.foldlM_cons, made]
    exact rest

/-- The row of a state that calls for one action at most before each terminal. -/
theorem exists_rowOf (plain : g.Unreserved) {k : Nat}
    (unique : ∀ s act act', g.Calls k s act → g.Calls k s act' → act = act') (conflicts : List Conflict) :
    ∃ after, rowOf g.tableSource k (kernelLookaheads g.numbers g.automaton k) conflicts = .ok after ∧
      after.conflicts = conflicts := by
  refine exists_foldlM_setAction (stateCalls g k) ?_ (fun call member => member) ?_
  · exact fun s act act' one other =>
      unique s act act' ((mem_stateCalls plain).mp one) ((mem_stateCalls plain).mp other)
  · intro column act cell
    rw [Array.getD_eq_getD_getElem?, Array.getElem?_replicate] at cell
    split at cell <;> exact absurd cell (by simp)

theorem exists_rowsOf {source : Source} {kernels : List (List (Item × SymbolSet))} (state : Nat)
    (clear : ∀ i kernel, kernels[i]? = some kernel → ∀ conflicts, ∃ after,
      rowOf source (state + i) kernel conflicts = .ok after ∧ after.conflicts = conflicts)
    (rows : Array (Array (Option Action))) :
    ∃ more, rowsOf source state rows [] kernels = .ok (more, []) := by
  induction kernels generalizing state rows with
  | nil => exact ⟨rows, rfl⟩
  | cons kernel kernels ih =>
    obtain ⟨after, made, none⟩ := clear 0 kernel rfl []
    obtain ⟨more, rest⟩ := ih (state + 1) (fun i other found conflicts => by
      obtain ⟨later, made', same⟩ := clear (i + 1) other found conflicts
      refine ⟨later, ?_, same⟩
      rw [← made']
      congr 1
      omega) (rows.push after.row)
    refine ⟨more, ?_⟩
    rw [Nat.add_zero] at made
    rw [rowsOf, made]
    dsimp only
    rw [none]
    exact rest

/-- **One action at most for each state and terminal makes a table without conflicts.** -/
theorem exists_table_of_calls (plain : g.Unreserved) (present : g.start ∈ g.nonterminals)
    (unique : ∀ k kernel, g.automaton.kernels[k]? = some kernel → ∀ s act act',
      g.Calls k s act → g.Calls k s act' → act = act') : ∃ t, Table.of g = .ok t ∧ t.conflicts = [] := by
  have rows : ∃ rows, rowsOf g.tableSource 0 #[] [] (Grammar.lookaheads g.numbers g.automaton).toList =
      .ok (rows, []) := by
    refine exists_rowsOf 0 (fun k kernel found conflicts => ?_) #[]
    rw [lookaheads_eq, List.getElem?_map] at found
    obtain ⟨j, inRange, rfl⟩ := Option.map_eq_some_iff.mp found
    obtain ⟨inside, rfl⟩ := List.getElem?_eq_some_iff.mp inRange
    rw [List.getElem_range, Nat.zero_add]
    rw [List.length_range] at inside
    exact exists_rowOf plain (unique k _ (Array.getElem?_eq_getElem inside)) conflicts
  obtain ⟨rows, made⟩ := rows
  exact exists_table_of_rows present made

end Table

/-! ### Symbols that derive some text -/

/-- One round of adding the left sides of productions of which all symbols are known or terminals. -/
def fruitfulRound (g : Grammar) (known : List String) : List String :=
  g.productions.foldr (fun p known =>
    bif !known.contains p.left && p.right.all (fun s => known.contains s || !g.nonterminals.contains s)
    then p.left :: known else known) known

theorem exists_derives_of_right {p : Production} (member : p ∈ g.productions)
    (right : ∀ s ∈ p.right, ∃ tree, g.Derives s tree) : ∃ tree, g.Derives p.left tree := by
  obtain ⟨k, found⟩ := List.mem_iff_getElem?.mp member
  obtain ⟨trees, derives⟩ := exists_derivesAll right
  exact ⟨_, .node found derives⟩

theorem exists_derives_of_mem_fruitfulRound {known : List String}
    (texts : ∀ s ∈ known, ∃ tree, g.Derives s tree) :
    ∀ s ∈ g.fruitfulRound known, ∃ tree, g.Derives s tree := by
  have fold : ∀ rules : List Production, (∀ p ∈ rules, p ∈ g.productions) →
      ∀ s ∈ rules.foldr (fun p known =>
        bif !known.contains p.left && p.right.all (fun s => known.contains s || !g.nonterminals.contains s)
        then p.left :: known else known) known, ∃ tree, g.Derives s tree := by
    intro rules within
    induction rules with
    | nil => exact texts
    | cons p rules ih =>
      have known' := ih fun q later => within q (List.mem_cons_of_mem _ later)
      rw [List.foldr_cons]
      generalize rules.foldr _ known = found at known'
      cases ready : !found.contains p.left &&
          p.right.all (fun s => found.contains s || !g.nonterminals.contains s) with
      | false => exact known'
      | true =>
        intro s member
        rcases List.mem_cons.mp member with rfl | member
        · refine exists_derives_of_right (within p List.mem_cons_self) fun s inRight => ?_
          rcases Bool.or_eq_true_iff.mp
            (List.all_eq_true.mp (Bool.and_eq_true_iff.mp ready).2 s inRight) with old | isTerminal
          · exact known' s (List.contains_iff_mem.mp old)
          · refine exists_derives_of_terminal fun isLeft => ?_
            rw [List.contains_iff_mem.mpr isLeft] at isTerminal
            exact absurd isTerminal (by simp)
        · exact known' s member
  exact fold g.productions fun p member => member

/-- The symbols found in some rounds derive some text. -/
theorem exists_derives_of_mem_repeat (rounds : Nat) :
    ∀ s ∈ Nat.repeat g.fruitfulRound rounds [], ∃ tree, g.Derives s tree := by
  induction rounds with
  | zero => exact fun s member => absurd member List.not_mem_nil
  | succ rounds ih => exact exists_derives_of_mem_fruitfulRound ih

/-! ### Simple grammars -/

/-- An item at its end in a set of items, and a terminal that may stand after it. -/
structure Ending (n : Numbered) (follows : List Nat) (items : Nat) (item : Item) (x : Nat) : Prop where
  member : items.testBit (Numbered.place item) = true
  follow : ∃ p, n.productions[item.production]? = some p ∧ item.dot = p.right.length ∧
    (Numbered.row follows p.left).testBit x = true

namespace Numbered.Quiet

variable {n : Numbered} {follows : List Nat} {items x : Nat}

/-- Items at their ends in a quiet set before the same terminal belong to one production. -/
theorem production_eq (quiet : n.Quiet follows items) {one other : Item}
    (endsOne : Ending n follows items one x) (endsOther : Ending n follows items other x) :
    one.production = other.production := by
  obtain ⟨j, d⟩ := one
  obtain ⟨k, e⟩ := other
  obtain ⟨inOne, p, foundOne, rfl, followOne⟩ := endsOne
  obtain ⟨inOther, q, foundOther, rfl, followOther⟩ := endsOther
  rcases Nat.lt_trichotomy j k with earlier | same | later
  · have apart := quiet.reduceReduce earlier foundOne foundOther inOne inOther x followOne
    exact absurd (followOther.symm.trans apart) (by simp)
  · exact same
  · have apart := quiet.reduceReduce later foundOther foundOne inOther inOne x followOther
    exact absurd (followOne.symm.trans apart) (by simp)

/-- No item at its end is before a terminal that another item of the quiet set has next. -/
theorem not_ending (quiet : n.Quiet follows items) {item other : Item}
    (member : items.testBit (Numbered.place item) = true) (next : n.nextSymbol? item = some x)
    (isTerminal : n.isNonterminal x = false) (below : x < n.symbolCount) :
    ¬ Ending n follows items other x := by
  rintro ⟨inOther, p, found, atEnd, follow⟩
  have atOther : items.testBit (Numbered.place ⟨other.production, p.right.length⟩) = true := by
    rw [← atEnd]
    exact inOther
  have apart := quiet.shiftReduce member next isTerminal below found atOther
  exact absurd (follow.symm.trans apart) (by simp)

end Numbered.Quiet

/-- The action at the end of a production. -/
def endAction (p : Nat) : Action := if p = 0 then .accept else .reduce p

section Simple

variable {rounds fuel : Nat}

/-- What calls for an action in a state that is covered: an item with the terminal next, or an item at its
end before the terminal. -/
theorem Calls.cases_of_covers (plain : g.Unreserved) (productive : g.numbers.Productive)
    (simple : g.numbers.isSimple rounds fuel = true) {k items : Nat} {kernel : List Item}
    (atState : g.automaton.kernels[k]? = some kernel) (covers : Covers g.numbers items kernel) {s : String}
    {act : Action} (calls : g.Calls k s act) :
    (∃ item j, items.testBit (Numbered.place item) = true ∧ g.numbers.nextSymbol? item = some (g.code s) ∧
      s ∈ g.terminals ∧ g.automaton.target? k (g.code s) = some j ∧ act = .shift j) ∨
    (∃ item, Ending g.numbers (g.numbers.followRows rounds) items item (g.code s) ∧
      act = endAction item.production) := by
  have proper := ofGrammar_proper plain
  have explored := explored_automaton plain
  obtain ⟨boundsFirst, simple⟩ := Bool.and_eq_true_iff.mp simple
  obtain ⟨boundsFollow, _⟩ := Bool.and_eq_true_iff.mp simple
  cases calls with
  | @shift item _ _ j inClosure next isTerminal target =>
    have member := mem_itemsOf_of_mem_closureAt plain atState inClosure
    exact Or.inl ⟨item, j, covers item member, next, isTerminal, target, rfl⟩
  | @accept item _ inClosure ends implicit =>
    have member := mem_itemsOf_of_mem_closureAt plain atState inClosure
    obtain ⟨p, found, atEnd⟩ := (valid_of_mem_itemsOf plain atState member).nextSymbol?_eq_none ends
    refine Or.inr ⟨item, ⟨covers item member, p, found, atEnd, ?_⟩, (if_pos implicit).symm⟩
    obtain ⟨start, first⟩ := proper.implicit
    rw [implicit] at found
    obtain rfl := Option.some.inj (first.symm.trans found)
    exact (Bool.and_eq_true_iff.mp boundsFollow).1
  | @reduce item lookaheads _ inClosure ends explicit _ expected =>
    have member := mem_itemsOf_of_mem_closureAt plain atState inClosure
    obtain ⟨p, found, atEnd⟩ := (valid_of_mem_itemsOf plain atState member).nextSymbol?_eq_none ends
    refine Or.inr ⟨item, ⟨covers item member, p, found, atEnd, ?_⟩, (if_neg explicit).symm⟩
    have closes := (Numbered.mem_closure_lookaheads proper
      (fit_kernelLookaheads proper explored atState)).mp ⟨lookaheads, inClosure, expected⟩
    have expects := (closes_iff_expects proper explored productive atState).mp closes
    exact expects.bounded proper boundsFirst boundsFollow found

/-- **No state of a simple grammar calls for two actions before one terminal.** -/
theorem calls_unique (plain : g.Unreserved) (productive : g.numbers.Productive)
    (simple : g.numbers.isSimple rounds fuel = true) {k : Nat} {kernel : List Item}
    (atState : g.automaton.kernels[k]? = some kernel) {s : String} {act act' : Action}
    (one : g.Calls k s act) (other : g.Calls k s act') : act = act' := by
  obtain ⟨items, quiet, covers⟩ :=
    exists_cover (ofGrammar_proper plain) (explored_automaton plain) simple atState
  have notBoth : ∀ {item other : Item}, items.testBit (Numbered.place item) = true →
      g.numbers.nextSymbol? item = some (g.code s) → s ∈ g.terminals →
        ¬ Ending g.numbers (g.numbers.followRows rounds) items other (g.code s) := by
    intro item other member next isTerminal
    have inSymbols : s ∈ g.symbols := mem_symbols.mpr (Or.inr isTerminal)
    refine quiet.not_ending member next ?_ (code_lt_iff.mpr inSymbols)
    exact decide_eq_false fun below =>
      plain.unmarked.not_nonterminal_of_mem_terminals isTerminal (code_lt_nonterminals_iff.mp below)
  rcases one.cases_of_covers plain productive simple atState covers with
    ⟨item, j, member, next, isTerminal, target, rfl⟩ | ⟨item, ends, rfl⟩
  · rcases other.cases_of_covers plain productive simple atState covers with
      ⟨_, j', _, _, _, target', rfl⟩ | ⟨_, ends, _⟩
    · rw [Option.some.inj (target.symm.trans target')]
    · exact absurd ends (notBoth member next isTerminal)
  · rcases other.cases_of_covers plain productive simple atState covers with
      ⟨_, _, member, next, isTerminal, _, _⟩ | ⟨item', ends', rfl⟩
    · exact absurd ends (notBoth member next isTerminal)
    · rw [quiet.production_eq ends ends']

/-- **The table of a simple grammar** whose nonterminals derive some text. -/
theorem exists_decided (plain : g.Unreserved) (present : g.start ∈ g.nonterminals)
    (texts : ∀ s ∈ g.nonterminals, ∃ tree, g.Derives s tree)
    (simple : g.numbers.isSimple rounds fuel = true) : ∃ t, Table.of g = .ok t ∧ Decided g t := by
  have productive := productive_of_derives plain texts
  obtain ⟨t, built, unambiguous⟩ := Table.exists_table_of_calls plain present
    fun k kernel atState s act act' one other => calls_unique plain productive simple atState one other
  exact ⟨t, built, plain, Table.made_of built, unambiguous, texts⟩

end Simple

end XPathAnnotator.Grammar
