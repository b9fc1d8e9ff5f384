/-
**The names of symbols.**

A grammar whose symbols are renamed has the same numbers, but for the placeholder, which is the number of the symbol
`#` if there is one. Where no terminal has that name, before or after the renaming, the placeholder does not matter,
and the cells of both tables are filled alike, one after the other, so that neither refusal nor conflicts depend on
names, nor do the rows of tokens that are accepted.

* `NamesApart.numbers` — the numbers after a renaming;
* `Harmless.cellCalls` — the actions for a cell, in their order;
* `table_rename` — **names do not matter to tables** where `#` is no terminal;
* `rejected_under_one_name` — a terminal `#`, which is taken for the placeholder.
-/

import Mathlib
import XPathAnnotator.Proofs.Grammar.Completeness
import XPathAnnotator.Proofs.Grammar.Gathering
import XPathAnnotator.Proofs.Grammar.Lockstep
import XPathAnnotator.Proofs.Grammar.Settling

namespace XPathAnnotator.Grammar

/-- A production with other names for its symbols. -/
def Production.rename (ρ : String → String) (p : Production) : Production :=
  ⟨ρ p.left, p.right.map ρ, by simpa using p.right_ne_nil⟩

/-- A grammar with other names for its symbols. -/
def rename (ρ : String → String) (g : Grammar) : Grammar := ⟨ρ g.start, g.rules.map (·.rename ρ)⟩

/-- A name that a renaming keeps apart from some others. -/
def Apart (ρ : String → String) (names : List String) (s : String) : Prop := ∀ t ∈ names, ρ s = ρ t → s = t

/-- A renaming of the symbols of a grammar: it keeps them apart, and leaves the implicit symbol and the end mark as they
are. -/
structure NamesApart (ρ : String → String) (g : Grammar) : Prop where
  accept : ρ acceptSymbol = acceptSymbol
  ends : ρ endSymbol = endSymbol
  apart : ∀ s ∈ g.symbols, Apart ρ g.symbols s

/-! ### Renamed lists -/

section Lists

variable {ρ : String → String} {names : List String} {s : String}

theorem Apart.of_subset {more : List String} (apart : Apart ρ more s) (sub : ∀ t ∈ names, t ∈ more) :
    Apart ρ names s := fun t member => apart t (sub t member)

theorem Apart.beq_eq (apart : Apart ρ names s) {t : String} (member : t ∈ names) : (ρ t == ρ s) = (t == s) := by
  rw [Bool.eq_iff_iff, beq_iff_eq, beq_iff_eq]
  exact ⟨fun same => (apart t member same.symm).symm, congrArg ρ⟩

theorem idxOf_map_rename (apart : Apart ρ names s) : (names.map ρ).idxOf (ρ s) = names.idxOf s := by
  induction names with
  | nil => rfl
  | cons name names ih =>
    rw [List.map_cons, List.idxOf_cons, List.idxOf_cons, apart.beq_eq List.mem_cons_self,
      ih (apart.of_subset fun _ => List.mem_cons_of_mem _)]

theorem idxOf?_map_rename (apart : Apart ρ names s) : (names.map ρ).idxOf? (ρ s) = names.idxOf? s := by
  induction names with
  | nil => rfl
  | cons name names ih =>
    rw [List.map_cons, List.idxOf?_cons, List.idxOf?_cons, apart.beq_eq List.mem_cons_self,
      ih (apart.of_subset fun _ => List.mem_cons_of_mem _)]

theorem mem_map_rename (apart : Apart ρ names s) : ρ s ∈ names.map ρ ↔ s ∈ names := by
  rw [List.mem_map]
  constructor
  · rintro ⟨t, member, same⟩
    rw [apart t member same.symm]
    exact member
  · exact fun member => ⟨s, member, rfl⟩

theorem columnIn_map_rename (apart : Apart ρ names s) :
    Table.columnIn (names.map ρ) (ρ s) = Table.columnIn names s := by
  unfold Table.columnIn
  rw [← List.map_reverse, idxOf?_map_rename (apart.of_subset fun _ => List.mem_reverse.mp), List.length_map]

theorem distinctAfter_map_rename (seen : List String) (apart : ∀ s ∈ names, Apart ρ (seen ++ names) s) :
    distinctAfter (seen.map ρ) (names.map ρ) = (distinctAfter seen names).map ρ := by
  induction names generalizing seen with
  | nil => rfl
  | cons name names ih =>
    have known : (seen.map ρ).contains (ρ name) = seen.contains name := by
      rw [Bool.eq_iff_iff, List.contains_iff_mem, List.contains_iff_mem]
      exact mem_map_rename ((apart name List.mem_cons_self).of_subset fun _ => List.mem_append_left _)
    have rest : ∀ {before : List String}, (∀ t ∈ before, t ∈ seen ++ name :: names) →
        ∀ s ∈ names, Apart ρ (before ++ names) s := by
      intro before sub s member
      refine (apart s (List.mem_cons_of_mem _ member)).of_subset fun t inside => ?_
      rcases List.mem_append.mp inside with early | late
      · exact sub t early
      · exact List.mem_append_right _ (List.mem_cons_of_mem _ late)
    rw [List.map_cons, distinctAfter, distinctAfter, known]
    split
    · exact ih _ (rest fun t member => List.mem_append_left _ member)
    · rw [List.map_cons, ← List.map_cons (f := ρ) (l := seen)]
      refine congrArg _ (ih _ (rest fun t member => ?_))
      rcases List.mem_cons.mp member with rfl | inSeen
      · exact List.mem_append_right _ List.mem_cons_self
      · exact List.mem_append_left _ inSeen

end Lists

/-! ### Symbols and numbers -/

variable {g : Grammar} {ρ : String → String}

theorem start_mem_symbols : g.start ∈ g.symbols :=
  right_mem_symbols (p := g.acceptProduction) (mem_productions.mpr (.inl rfl)) (List.mem_singleton_self _)

theorem accept_mem_symbols : acceptSymbol ∈ g.symbols :=
  mem_symbols.mpr (.inl (left_mem_nonterminals (p := g.acceptProduction) (mem_productions.mpr (.inl rfl))))

theorem left_mem_symbols {p : Production} (member : p ∈ g.productions) : p.left ∈ g.symbols :=
  mem_symbols.mpr (.inl (left_mem_nonterminals member))

namespace NamesApart

theorem productions (named : NamesApart ρ g) : (g.rename ρ).productions = g.productions.map (·.rename ρ) := by
  refine congrArg (· :: g.rules.map (·.rename ρ)) ?_
  unfold acceptProduction Production.rename
  simp only [named.accept, List.map_cons, List.map_nil]
  rfl

theorem apart_of_subset (named : NamesApart ρ g) {names : List String} (sub : ∀ t ∈ names, t ∈ g.symbols) {s : String}
    (member : s ∈ g.symbols) : Apart ρ names s := (named.apart s member).of_subset sub

theorem nonterminals (named : NamesApart ρ g) : (g.rename ρ).nonterminals = g.nonterminals.map ρ := by
  unfold Grammar.nonterminals
  rw [named.productions, List.map_map, ← distinctAfter_map_rename [] fun s member => ?_, List.map_map]
  · rfl
  · have inSymbols : ∀ t ∈ g.productions.map Production.left, t ∈ g.symbols := by
      intro t inLeft
      obtain ⟨p, member, rfl⟩ := List.mem_map.mp inLeft
      exact left_mem_symbols member
    exact named.apart_of_subset inSymbols (inSymbols s member)

theorem terminals (named : NamesApart ρ g) : (g.rename ρ).terminals = g.terminals.map ρ := by
  have inSymbols : ∀ t ∈ g.nonterminals ++ g.productions.flatMap Production.right, t ∈ g.symbols := by
    intro t member
    rcases List.mem_append.mp member with isLeft | inRight
    · exact mem_symbols.mpr (.inl isLeft)
    · obtain ⟨p, inside, inRight⟩ := List.mem_flatMap.mp inRight
      exact right_mem_symbols inside inRight
  have rights : (g.rename ρ).productions.flatMap Production.right = (g.productions.flatMap Production.right).map ρ := by
    rw [named.productions, List.flatMap_map, List.map_flatMap]
    rfl
  unfold Grammar.terminals
  rw [named.nonterminals, rights, distinctAfter_map_rename _ fun s member => ?_, List.map_append, List.map_singleton,
    named.ends]
  exact named.apart_of_subset inSymbols (inSymbols s (List.mem_append_right _ member))

theorem symbols (named : NamesApart ρ g) : (g.rename ρ).symbols = g.symbols.map ρ := by
  unfold Grammar.symbols
  rw [named.nonterminals, named.terminals, List.map_append]

theorem code (named : NamesApart ρ g) {s : String} (apart : Apart ρ g.symbols s) :
    (g.rename ρ).code (ρ s) = g.code s := by
  unfold Grammar.code
  rw [named.symbols, idxOf_map_rename apart]

theorem numbered (named : NamesApart ρ g) {p : Production} (member : p ∈ g.productions) :
    (g.rename ρ).numbered (p.rename ρ) = g.numbered p := by
  unfold Grammar.numbered Production.rename
  rw [named.code (named.apart _ (left_mem_symbols member)), List.map_map]
  refine congrArg _ (List.map_congr_left fun s inRight => ?_)
  exact named.code (named.apart s (right_mem_symbols member inRight))

/-- **The numbers after a renaming** are the same, but for the placeholder. -/
theorem numbers (named : NamesApart ρ g) :
    (g.rename ρ).numbers = g.numbers.marked ((g.rename ρ).code Numbered.placeholderName) := by
  have counts : (g.rename ρ).nonterminals.length = g.nonterminals.length := by
    rw [named.nonterminals, List.length_map]
  have symbolCounts : (g.rename ρ).symbols.length = g.symbols.length := by rw [named.symbols, List.length_map]
  have productions : ((g.rename ρ).productions.map (g.rename ρ).numbered).toArray =
      (g.productions.map g.numbered).toArray := by
    rw [named.productions, List.map_map]
    exact congrArg _ (List.map_congr_left fun p member => named.numbered member)
  have terminal : ∀ (names : List String) (set : SymbolSet), (∀ s ∈ names, s ∈ g.symbols) →
      (names.map ρ).foldl (fun set s => set.insert ((g.rename ρ).code s)) set =
        names.foldl (fun set s => set.insert (g.code s)) set := by
    intro names
    induction names with
    | nil => exact fun _ _ => rfl
    | cons name names ih =>
      intro set inSymbols
      rw [List.map_cons, List.foldl_cons, List.foldl_cons, named.code (named.apart _ (inSymbols _ List.mem_cons_self))]
      exact ih _ fun s member => inSymbols s (List.mem_cons_of_mem _ member)
  have terminals : (g.rename ρ).terminals.foldl (fun set s => set.insert ((g.rename ρ).code s)) SymbolSet.empty =
      g.terminals.foldl (fun set s => set.insert (g.code s)) SymbolSet.empty := by
    rw [named.terminals]
    exact terminal _ _ fun s isTerminal => mem_symbols.mpr (.inr isTerminal)
  have endMark : (g.rename ρ).code endSymbol = g.code endSymbol := by
    have kept := named.code (named.apart _ (mem_symbols.mpr (.inr (end_mem_terminals (g := g)))))
    rwa [named.ends] at kept
  show Numbered.mk (g.rename ρ).nonterminals.length (g.rename ρ).symbols.length
      ((g.rename ρ).productions.map (g.rename ρ).numbered).toArray
      ((g.rename ρ).terminals.foldl (fun set s => set.insert ((g.rename ρ).code s)) SymbolSet.empty)
      ((g.rename ρ).code endSymbol) ((g.rename ρ).code Numbered.placeholderName) = _
  rw [counts, symbolCounts, productions, terminals, endMark]
  rfl

theorem unmarked (named : NamesApart ρ g) (unmarked : g.Unmarked) : (g.rename ρ).Unmarked := by
  have kept : ∀ s ∈ g.symbols, s ∉ markNames → ρ s ∉ markNames := by
    intro s member free mark
    simp only [markNames, List.mem_cons, List.not_mem_nil, or_false] at mark free
    rcases mark with same | same
    · exact free (.inl (named.apart s member _ accept_mem_symbols (same.trans named.accept.symm)))
    · refine free (.inr (named.apart s member _ ?_ (same.trans named.ends.symm)))
      exact mem_symbols.mpr (.inr end_mem_terminals)
  refine ⟨kept _ start_mem_symbols unmarked.start, fun p member => ?_, fun p member s inRight => ?_⟩
  · obtain ⟨q, rule, rfl⟩ := List.mem_map.mp member
    exact kept _ (left_mem_symbols (mem_productions.mpr (.inr rule))) (unmarked.left q rule)
  · obtain ⟨q, rule, rfl⟩ := List.mem_map.mp member
    obtain ⟨t, inside, rfl⟩ := List.mem_map.mp inRight
    exact kept _ (right_mem_symbols (mem_productions.mpr (.inr rule)) inside) (unmarked.right q rule t inside)

end NamesApart

/-! ### Cells -/

namespace Table

/-- A call with another name for its terminal. -/
def renameCall (ρ : String → String) (call : String × Action) : String × Action := (ρ call.1, call.2)

/-- An item calls for one action only, before all its terminals. -/
theorem actionsOf_constant (source : Source) (k : Nat) (item : Item) (lookaheads : SymbolSet) :
    ∃ act, ∀ call ∈ actionsOf source k item lookaheads, call.2 = act := by
  unfold actionsOf
  split
  · split
    · split
      · rename_i j name _ _
        exact ⟨.shift j, fun call member => by rw [List.mem_singleton.mp member]⟩
      · exact ⟨.accept, fun call member => absurd member List.not_mem_nil⟩
    · exact ⟨.accept, fun call member => absurd member List.not_mem_nil⟩
  · split
    · exact ⟨.accept, fun call member => by rw [List.mem_singleton.mp member]⟩
    · refine ⟨.reduce item.production, fun call member => ?_⟩
      obtain ⟨_, _, rfl⟩ := List.mem_map.mp member
      rfl

/-- Lists in different orders are equal if all their elements are. -/
theorem eq_of_perm_of_constant {γ : Type} {first second : List γ} (perm : first.Perm second) {c : γ}
    (constant : ∀ x ∈ second, x = c) : first = second := by
  rw [List.eq_replicate_of_mem constant] at perm ⊢
  exact List.perm_replicate.mp perm

theorem callsIn_flatMap {γ : Type} (terminals : List String) (items : List γ) (calls : γ → List (String × Action))
    (column : Nat) : callsIn terminals (items.flatMap calls) column =
      items.flatMap fun item => callsIn terminals (calls item) column := List.filterMap_flatMap

/-- The actions for a cell after a renaming of the terminals. -/
theorem callsIn_rename {terminals : List String} {calls : List (String × Action)}
    (apart : ∀ call ∈ calls, Apart ρ terminals call.1) (column : Nat) :
    callsIn (terminals.map ρ) (calls.map (renameCall ρ)) column = callsIn terminals calls column := by
  unfold callsIn
  rw [List.filterMap_map]
  refine List.filterMap_congr fun call member => ?_
  show (if columnIn (terminals.map ρ) (ρ call.1) = some column then some call.2 else none) = _
  rw [columnIn_map_rename (apart call member)]

theorem sortedTerminals_rename (named : NamesApart ρ g) :
    (sortedTerminals (g.rename ρ)).Perm ((sortedTerminals g).map fun entry => (ρ entry.1, entry.2)) := by
  have distinct : Grammar.distinctAfter [] (g.rename ρ).terminals = (Grammar.distinctAfter [] g.terminals).map ρ := by
    rw [named.terminals]
    refine distinctAfter_map_rename [] fun s member => ?_
    exact named.apart_of_subset (fun t inside => mem_symbols.mpr (.inr inside)) (mem_symbols.mpr (.inr member))
  unfold sortedTerminals
  dsimp only
  rw [distinct, List.map_map]
  refine ((List.mergeSort_perm _ _).map _).trans ?_
  rw [List.map_map]
  refine List.Perm.trans (.of_eq (List.map_congr_left fun s member => ?_)) ((List.mergeSort_perm _ _).symm.map _)
  have isTerminal := (Grammar.mem_distinctAfter.mp member).1
  exact Prod.ext rfl (named.code (named.apart s (mem_symbols.mpr (.inr isTerminal))))

end Table

/-- A renaming of a grammar none of whose terminals has the name of the placeholder, before or after. -/
structure Harmless (ρ : String → String) (g : Grammar) : Prop extends NamesApart ρ g where
  unmarked : g.Unmarked
  free : Numbered.placeholderName ∉ g.terminals
  freeOther : Numbered.placeholderName ∉ (g.rename ρ).terminals

namespace Harmless

theorem automaton (harmless : Harmless ρ g) : (g.rename ρ).automaton = g.automaton := by
  unfold Grammar.automaton
  rw [harmless.numbers]
  exact Automaton.of_marked

theorem kernelLookaheads (harmless : Harmless ρ g) (k : Nat) :
    kernelLookaheads (g.rename ρ).numbers (g.rename ρ).automaton k = kernelLookaheads g.numbers g.automaton k := by
  have properOther : (g.rename ρ).numbers.Proper :=
    (harmless.toNamesApart.unmarked harmless.unmarked).proper harmless.freeOther
  rw [harmless.automaton, harmless.numbers]
  rw [harmless.numbers] at properOther
  exact kernelLookaheads_marked (harmless.unmarked.proper harmless.free) properOther k

/-- **The items and look-aheads of a state** are the same after a renaming. -/
theorem closureAt (harmless : Harmless ρ g) (k : Nat) : (g.rename ρ).closureAt k = g.closureAt k := by
  unfold Grammar.closureAt
  rw [harmless.kernelLookaheads, harmless.numbers]
  rfl

/-- The actions that an item calls for, with the names of their terminals, in an order that depends on these names. -/
theorem actionsOf (harmless : Harmless ρ g) (k : Nat) (item : Item) (lookaheads : SymbolSet) :
    (Table.actionsOf (g.rename ρ).tableSource k item lookaheads).Perm
      ((Table.actionsOf g.tableSource k item lookaheads).map (Table.renameCall ρ)) := by
  unfold Table.actionsOf tableSource
  dsimp only
  rw [harmless.automaton, harmless.numbers, Numbered.nextSymbol?_marked, Numbered.terminal_marked]
  split
  · rename_i symbol next
    split
    · rw [List.getElem?_toArray, List.getElem?_toArray, harmless.symbols, List.getElem?_map]
      cases g.automaton.target? k symbol with
      | none => exact .refl _
      | some j =>
        cases g.symbols[symbol]? with
        | none => exact .refl _
        | some name => exact .refl _
    · exact .refl _
  · split
    · exact .of_eq (by rw [List.map_singleton, Table.renameCall, harmless.ends])
    · have kept := (Table.sortedTerminals_rename harmless.toNamesApart).filter fun entry => lookaheads.contains entry.2
      have sorted := kept.map fun entry => (entry.1, Action.reduce item.production)
      refine sorted.trans (.of_eq ?_)
      rw [List.filter_map, List.map_map, List.map_map]
      rfl

theorem mem_symbols_of_actionsOf {k : Nat} {item : Item} {lookaheads : SymbolSet} {call : String × Action}
    (member : call ∈ Table.actionsOf g.tableSource k item lookaheads) : call.1 ∈ g.symbols := by
  rcases Table.mem_actionsOf.mp member with ⟨_, _, _, _, _, named, _⟩ | ⟨_, _, isEnd, _⟩ | ⟨_, _, isTerminal, _⟩
  · exact List.mem_of_getElem? named
  · rw [isEnd]
    exact mem_symbols.mpr (.inr end_mem_terminals)
  · exact mem_symbols.mpr (.inr isTerminal)

/-- **The actions for a cell, in their order**, are the same after a renaming. -/
theorem cellCalls (harmless : Harmless ρ g) (k column : Nat) :
    Table.cellCalls (g.rename ρ) k column = Table.cellCalls g k column := by
  unfold Table.cellCalls Table.stateCalls
  rw [harmless.closureAt, Table.callsIn_flatMap, Table.callsIn_flatMap, harmless.terminals]
  refine List.flatMap_congr fun pair _ => ?_
  have same : Table.callsIn (g.terminals.map ρ)
      ((Table.actionsOf g.tableSource k pair.1 pair.2).map (Table.renameCall ρ)) column =
        Table.callsIn g.terminals (Table.actionsOf g.tableSource k pair.1 pair.2) column := by
    refine Table.callsIn_rename (fun call member => ?_) column
    exact harmless.apart_of_subset (fun t isTerminal => mem_symbols.mpr (.inr isTerminal))
      (mem_symbols_of_actionsOf member)
  rw [← same]
  -- The order of the terminals does not matter, since an item calls for the same action before all of them.
  obtain ⟨act, constant⟩ := Table.actionsOf_constant g.tableSource k pair.1 pair.2
  refine Table.eq_of_perm_of_constant ((harmless.actionsOf k pair.1 pair.2).filterMap _) (c := act)
    fun act' member => ?_
  obtain ⟨call, inCalls, called⟩ := List.mem_filterMap.mp member
  obtain ⟨origin, inside, rfl⟩ := List.mem_map.mp inCalls
  split at called
  · exact (Option.some.inj called).symm.trans (constant origin inside)
  · exact absurd called (by simp)

/-! ### Tables -/

variable {t u : Table}

/-- What is no state has no row. -/
theorem no_row (made : Table.Made g t) {k : Nat} (absent : g.automaton.kernels[k]? = none) : t.action[k]? = none := by
  by_contra some
  obtain ⟨row, found⟩ := Option.ne_none_iff_exists'.mp some
  obtain ⟨kernel, present⟩ := made.exists_kernel found
  exact absurd (absent.symm.trans present) (by simp)

/-- Both tables do the same in a state before a terminal. -/
theorem action? (harmless : Harmless ρ g) (made : Table.Made g t) (madeOther : Table.Made (g.rename ρ) u) (k : Nat)
    {s : String} (apart : Apart ρ g.symbols s) : u.action? k (ρ s) = t.action? k s := by
  have column : Table.columnIn u.terminals (ρ s) = Table.columnIn t.terminals s := by
    rw [made.terminals_eq, madeOther.terminals_eq, harmless.terminals]
    exact columnIn_map_rename (apart.of_subset fun _ isTerminal => mem_symbols.mpr (.inr isTerminal))
  unfold Table.action?
  rw [column]
  cases atState : g.automaton.kernels[k]? with
  | some kernel =>
    obtain ⟨row, atRow, cells⟩ := made.cells atState
    obtain ⟨row', atRow', cells'⟩ := madeOther.cells (by rw [harmless.automaton]; exact atState)
    rw [atRow, atRow']
    cases Table.columnIn t.terminals s with
    | none => rfl
    | some i =>
      have same := cells' i
      rw [harmless.cellCalls, cells i] at same
      exact (Prod.mk.inj (Option.some.inj same)).1.symm
  | none =>
    have absent : (g.rename ρ).automaton.kernels[k]? = none := by rw [harmless.automaton, atState]
    rw [no_row made atState, no_row madeOther absent]

/-- Both tables go to the same state after a nonterminal. -/
theorem goto? (harmless : Harmless ρ g) (made : Table.Made g t) (madeOther : Table.Made (g.rename ρ) u) (k : Nat)
    {s : String} (member : s ∈ g.symbols) : u.goto? k (ρ s) = t.goto? k s := by
  have column : u.nonterminals.idxOf? (ρ s) = t.nonterminals.idxOf? s := by
    rw [made.nonterminals_eq, madeOther.nonterminals_eq, harmless.nonterminals]
    exact idxOf?_map_rename (harmless.apart_of_subset (fun _ isLeft => mem_symbols.mpr (.inl isLeft)) member)
  have table : u.goto = t.goto := by
    rw [made.goto_eq, madeOther.goto_eq, harmless.automaton, harmless.nonterminals, List.length_map]
  unfold Table.goto?
  rw [column, table]

/-- A production that a table applies is there. -/
theorem exists_production (made : Table.Made g t) {k p : Nat} {s : String}
    (acts : t.action? k s = some (.reduce p)) : ∃ production, g.productions[p]? = some production := by
  unfold Table.action? at acts
  split at acts
  · rename_i column row _ atRow
    obtain ⟨kernel, atState⟩ := made.exists_kernel atRow
    obtain ⟨row', atRow', cells⟩ := made.cells atState
    obtain rfl := Option.some.inj (atRow.symm.trans atRow')
    have inCalls := ((Table.settle_eq_some (cells column) _).mp acts).1
    obtain ⟨⟨name, act⟩, member, same⟩ := List.mem_filterMap.mp inCalls
    split at same
    · obtain rfl := Option.some.inj same
      have below := Table.known_stateCalls g k _ member p rfl
      exact ⟨_, List.getElem?_eq_getElem (by simpa using below)⟩
    · exact absurd same (by simp)
  · exact absurd acts (by simp)

/-- **The tables before and after a renaming act alike in the same states.** -/
theorem lockstep (harmless : Harmless ρ g) (made : Table.Made g t) (madeOther : Table.Made (g.rename ρ) u) :
    Lockstep t u ρ (Apart ρ g.symbols) Eq := by
  refine ⟨rfl, fun {k k' s} same apart => ?_⟩
  subst same
  rw [harmless.action? made madeOther k apart]
  cases acts : t.action? k s with
  | none => exact .none
  | some act =>
    cases act with
    | shift j => exact .shift rfl
    | accept => exact .accept
    | reduce p =>
      obtain ⟨production, found⟩ := exists_production made acts
      have foundOther : (g.rename ρ).productions[p]? = some (production.rename ρ) := by
        rw [harmless.productions, List.getElem?_map, found, Option.map_some]
      refine .reduce (made.getElem?_productions found) (madeOther.getElem?_productions foundOther)
        (List.length_map _).symm fun l l' same => ?_
      subst same
      rw [show (production.rename ρ).left = ρ production.left from rfl,
        harmless.goto? made madeOther l (left_mem_symbols (List.mem_of_getElem? found))]
      cases t.goto? l production.left with
      | none => exact .none
      | some j => exact .some rfl

end Harmless

/-- **The names of symbols do not matter.** For every grammar without marks in its rules and every renaming that keeps
its symbols apart, if neither grammar has a terminal with the name of the placeholder: both are refused, or both have
tables, with as many conflicts, whose parsers accept the same rows of tokens but for the names, without a bound on the
steps and within it, whatever values they make. -/
theorem table_rename (unmarked : g.Unmarked) (named : NamesApart ρ g) (free : Numbered.placeholderName ∉ g.terminals)
    (freeOther : Numbered.placeholderName ∉ (g.rename ρ).terminals) :
    ((∃ e, Table.of g = .error e) ∧ ∃ e, Table.of (g.rename ρ) = .error e) ∨
    ∃ t u, Table.of g = .ok t ∧ Table.of (g.rename ρ) = .ok u ∧ t.conflicts.length = u.conflicts.length ∧
      ∀ {α ε β δ : Type} (semantics : Semantics α ε) (semantics' : Semantics β δ), semantics.Total →
        semantics'.Total → ∀ tokens, (∀ token ∈ tokens, Apart ρ g.symbols token.kind) →
          (t.Accepts semantics tokens ↔ u.Accepts semantics' (tokens.map (·.rename ρ))) ∧
          ((∃ value, t.parse semantics tokens = .ok value) ↔
            ∃ value, u.parse semantics' (tokens.map (·.rename ρ)) = .ok value) := by
  have harmless : Harmless ρ g := ⟨named, unmarked, free, freeOther⟩
  have starts : (g.rename ρ).start ∈ (g.rename ρ).nonterminals ↔ g.start ∈ g.nonterminals := by
    rw [named.nonterminals]
    refine mem_map_rename (named.apart_of_subset (fun s isLeft => mem_symbols.mpr (.inl isLeft)) start_mem_symbols)
  by_cases present : g.start ∈ g.nonterminals
  · have cases := Table.of_cases present
    have casesOther := Table.of_cases (starts.mpr present)
    simp only [harmless.cellCalls, harmless.automaton, named.terminals, List.length_map] at casesOther
    rcases cases with ⟨t, built, counted⟩ | ⟨failed, k, inside, column, refused⟩
    · rcases casesOther with ⟨u, builtOther, countedOther⟩ | ⟨_, k, inside, column, refused⟩
      · refine .inr ⟨t, u, built, builtOther, counted.trans countedOther.symm, ?_⟩
        intro α ε β δ semantics semantics' total total' tokens apart
        have made := Table.made_of built
        have madeOther := Table.made_of builtOther
        have lockstep := harmless.lockstep made madeOther
        have sizes : t.nonterminals.length = u.nonterminals.length := by
          rw [made.nonterminals_eq, madeOther.nonterminals_eq, named.nonterminals, List.length_map]
        exact ⟨lockstep.accepts_iff total total' apart, lockstep.parse_iff sizes total total' apart⟩
      · obtain ⟨_, _, cells⟩ := (Table.made_of built).cells (Array.getElem?_eq_getElem inside)
        exact absurd (refused.symm.trans (cells column)) (by simp)
    · rcases casesOther with ⟨u, builtOther, _⟩ | ⟨failedOther, _⟩
      · obtain ⟨_, _, cells⟩ := (Table.made_of builtOther).cells (k := k)
          (by rw [harmless.automaton]; exact Array.getElem?_eq_getElem inside)
        simp only [harmless.cellCalls] at cells
        exact absurd (refused.symm.trans (cells column)) (by simp)
      · exact .inl ⟨failed, failedOther⟩
  · exact .inl ⟨Table.exists_error_of_absent present, Table.exists_error_of_absent (mt starts.mp present)⟩

/-- Other names for the symbols of sums, of which one is that of the placeholder, for the nonterminal. -/
def otherNames (s : String) : String := if s = "Sum" then "#" else if s = "+" then "plus" else s

theorem table_rename_sum : ∃ u, Table.of (sumGrammar.rename otherNames) = .ok u ∧ u.conflicts = [] ∧
    ∃ tree, u.parse treeSemantics [⟨"x", "1"⟩, ⟨"plus", "+"⟩, ⟨"x", "2"⟩, .end] = .ok tree := by
  have named : NamesApart otherNames sumGrammar := ⟨by decide, by decide, by unfold Apart; decide⟩
  obtain ⟨t, built, unambiguous⟩ := exists_table_sumGrammar
  rcases table_rename unreserved_sumGrammar.unmarked named (by decide) (by decide) with
    ⟨⟨e, failed⟩, _⟩ | ⟨t', u, built', builtOther, conflicts, same⟩
  · exact absurd (built.symm.trans failed) (by simp)
  · obtain rfl := Except.ok.inj (built.symm.trans built')
    rw [unambiguous] at conflicts
    refine ⟨u, builtOther, List.length_eq_zero_iff.mp conflicts.symm, ?_⟩
    refine (same _ _ total_treeSemantics total_treeSemantics (sumTree.yield ++ [.end]) ?_).2.mp ⟨sumTree, ?_⟩
    · unfold Apart
      decide
    · rw [parse_sumTree built unambiguous, fold_treeSemantics]
      rfl

/-! ### The name of the placeholder -/

/-- A grammar whose texts are closed by a terminal of some name. -/
def closedBy (mark : String) : Grammar :=
  ⟨"S", [⟨"S", ["A", mark], List.cons_ne_nil _ _⟩, ⟨"A", ["a"], List.cons_ne_nil _ _⟩]⟩

/-- What the tables of `closedBy` are made from, for two names of the terminal. The placeholder is that terminal or
no symbol. -/
def closedSource (mark : String) (sorted : List (String × Nat)) (placeholder : Nat) : Table.Source :=
  { productions := (closedBy mark).productions.toArray
    symbols := #["$accept", "S", "A", mark, "a", "EOF"]
    terminals := [mark, "a", "EOF"]
    sorted := sorted
    numbered := ⟨3, 6, #[⟨0, [1]⟩, ⟨1, [2, 3]⟩, ⟨2, [4]⟩], ⟨56⟩, 5, placeholder⟩
    automaton :=
      ⟨#[[⟨0, 0⟩], [⟨0, 1⟩], [⟨1, 1⟩], [⟨2, 1⟩], [⟨1, 2⟩]], #[[(1, 1), (2, 2), (4, 3)], [], [(3, 4)], [], []]⟩
    first := #[⟨16⟩, ⟨16⟩, ⟨16⟩, ⟨8⟩, ⟨16⟩, ⟨32⟩] }

theorem tableSource_closedBy_hash :
    (closedBy "#").tableSource = closedSource "#" [("#", 3), ("EOF", 5), ("a", 4)] 3 :=
  tableSource_eq rfl (by decide +kernel) (by decide +kernel) (by cbv) (by decide +kernel) (by decide +kernel)
    (by decide)

theorem tableSource_closedBy_semicolon :
    (closedBy ";").tableSource = closedSource ";" [(";", 3), ("EOF", 5), ("a", 4)] 6 :=
  tableSource_eq rfl (by decide +kernel) (by decide +kernel) (by cbv) (by decide +kernel) (by decide +kernel)
    (by decide)

/-- The cells of the tables, which differ in what is done before the terminal and the end once `a` is read. -/
def closedRows (beforeMark beforeEnd : Option Action) : Array (Array (Option Action)) :=
  #[#[none, some (.shift 3), none], #[none, none, some .accept], #[some (.shift 4), none, none],
    #[beforeMark, none, beforeEnd], #[none, none, some (.reduce 1)]]

theorem rows_closedBy_hash : Table.rowsOf (closedBy "#").tableSource 0 #[] []
    (Grammar.lookaheads (closedBy "#").numbers (closedBy "#").automaton).toList =
      .ok (closedRows none (some (.reduce 2)), []) := by
  have lookaheads : Grammar.lookaheads (closedBy "#").numbers (closedBy "#").automaton =
      #[[(⟨0, 0⟩, ⟨32⟩)], [(⟨0, 1⟩, ⟨32⟩)], [(⟨1, 1⟩, ⟨32⟩)], [(⟨2, 1⟩, ⟨32⟩)], [(⟨1, 2⟩, ⟨32⟩)]] := by
    rw [numbers_of_tableSource tableSource_closedBy_hash, automaton_of_tableSource tableSource_closedBy_hash]
    decide
  rw [lookaheads, tableSource_closedBy_hash]
  rfl

theorem rows_closedBy_semicolon : Table.rowsOf (closedBy ";").tableSource 0 #[] []
    (Grammar.lookaheads (closedBy ";").numbers (closedBy ";").automaton).toList =
      .ok (closedRows (some (.reduce 2)) none, []) := by
  have lookaheads : Grammar.lookaheads (closedBy ";").numbers (closedBy ";").automaton =
      #[[(⟨0, 0⟩, ⟨32⟩)], [(⟨0, 1⟩, ⟨32⟩)], [(⟨1, 1⟩, ⟨32⟩)], [(⟨2, 1⟩, ⟨8⟩)], [(⟨1, 2⟩, ⟨32⟩)]] := by
    rw [numbers_of_tableSource tableSource_closedBy_semicolon, automaton_of_tableSource tableSource_closedBy_semicolon]
    decide
  rw [lookaheads, tableSource_closedBy_semicolon]
  rfl

/-- The table of `closedBy`, part by part. -/
theorem exists_table_closedBy {mark : String} {sorted : List (String × Nat)} {placeholder : Nat}
    {rows : Array (Array (Option Action))} (source : (closedBy mark).tableSource = closedSource mark sorted placeholder)
    (present : "S" ∈ (closedBy mark).nonterminals) (nonterminals : (closedBy mark).nonterminals = ["$accept", "S", "A"])
    (made : Table.rowsOf (closedBy mark).tableSource 0 #[] []
      (Grammar.lookaheads (closedBy mark).numbers (closedBy mark).automaton).toList = .ok (rows, [])) :
    ∃ t, Table.of (closedBy mark) = .ok t ∧ t.action = rows ∧ t.conflicts = [] ∧
      t.productions = (closedBy mark).productions.toArray ∧ t.nonterminals = ["$accept", "S", "A"] ∧
      t.terminals = [mark, "a", "EOF"] ∧
      t.goto = #[#[none, some 1, some 2], #[none, none, none], #[none, none, none], #[none, none, none],
        #[none, none, none]] := by
  obtain ⟨t, built, conflicts⟩ := Table.exists_table_of_rows present made
  have parts := Table.made_of built
  have terminals : (closedBy mark).terminals = [mark, "a", "EOF"] := congrArg Table.Source.terminals source
  have action := parts.rows
  rw [made] at action
  refine ⟨t, built, (congrArg Prod.fst (Except.ok.inj action)).symm, conflicts, parts.productions_eq,
    parts.nonterminals_eq.trans nonterminals, parts.terminals_eq.trans terminals, ?_⟩
  rw [parts.goto_eq, automaton_of_tableSource source, nonterminals]
  dsimp only [closedSource]
  decide

/-- A text that the grammar derives. -/
def closedText : List Token := [⟨"a", "a"⟩, ⟨"#", "#"⟩, .end]

/-- Another name for the terminal. -/
def semicolon (s : String) : String := if s = "#" then ";" else s

/-- **A terminal with the name of the placeholder**: a text that the grammar derives is blamed, and accepted under
another name of the terminal. -/
theorem rejected_under_one_name : (closedBy "#").Unmarked ∧ NamesApart semicolon (closedBy "#") ∧
    ∃ t u, Table.of (closedBy "#") = .ok t ∧ Table.of ((closedBy "#").rename semicolon) = .ok u ∧
      t.parse treeSemantics closedText = .error (.unexpected ⟨"#", "#"⟩) ∧
      ∃ tree, u.parse treeSemantics (closedText.map (·.rename semicolon)) = .ok tree := by
  obtain ⟨t, built, action, _, productions, nonterminals, terminals, goto⟩ :=
    exists_table_closedBy tableSource_closedBy_hash (by decide) (by decide) rows_closedBy_hash
  obtain ⟨u, builtOther, action', _, productions', nonterminals', terminals', goto'⟩ :=
    exists_table_closedBy tableSource_closedBy_semicolon (by decide) (by decide) rows_closedBy_semicolon
  have renamed : (closedBy "#").rename semicolon = closedBy ";" := rfl
  refine ⟨⟨by decide, by decide, by decide⟩, ⟨by decide, by decide, by unfold Apart; decide⟩, t, u, built,
    renamed ▸ builtOther, ?_, ?_⟩
  · clear built builtOther
    obtain ⟨_, _, _, _, _, _, _, _, _, _⟩ := t
    dsimp only at action productions nonterminals terminals goto
    subst action productions nonterminals terminals goto
    rfl
  · clear built builtOther
    obtain ⟨_, _, _, _, _, _, _, _, _, _⟩ := u
    dsimp only at action' productions' nonterminals' terminals' goto'
    subst action' productions' nonterminals' terminals' goto'
    exact ⟨_, rfl⟩

end XPathAnnotator.Grammar
