/-
**The cells of a table.**

`Calls` says which actions the items of a state call for before a terminal.

* `calls_of_action?` — every action of a table is one that an item calls for;
* `action?_of_calls` — in a table without conflicts every action that an item calls for is there;
* `goto?_eq` — the state after a nonterminal is the target of its transition.
-/

import Mathlib
import XPathAnnotator.Grammar.Table
import XPathAnnotator.Proofs.Grammar.Expected

namespace XPathAnnotator.Grammar

/-- The numbered form of a grammar. -/
abbrev numbers (g : Grammar) : Numbered := Numbered.ofGrammar g

/-- The item automaton of a grammar. -/
abbrev automaton (g : Grammar) : Automaton := Automaton.of g.numbers

/-- The closure of a state, with look-aheads. -/
def closureAt (g : Grammar) (k : Nat) : List (Item × SymbolSet) :=
  g.numbers.closure g.numbers.first (kernelLookaheads g.numbers g.automaton k)

/-- The actions that the items of a state call for before a terminal. -/
inductive Calls (g : Grammar) (k : Nat) : String → Action → Prop
  | shift {item : Item} {lookaheads : SymbolSet} {s : String} {j : Nat} :
      (item, lookaheads) ∈ g.closureAt k → g.numbers.nextSymbol? item = some (g.code s) →
        s ∈ g.terminals → g.automaton.target? k (g.code s) = some j → Calls g k s (.shift j)
  | accept {item : Item} {lookaheads : SymbolSet} :
      (item, lookaheads) ∈ g.closureAt k → g.numbers.nextSymbol? item = none → item.production = 0 →
        Calls g k endSymbol .accept
  | reduce {item : Item} {lookaheads : SymbolSet} {s : String} :
      (item, lookaheads) ∈ g.closureAt k → g.numbers.nextSymbol? item = none → item.production ≠ 0 →
        s ∈ g.terminals → g.code s ∈ lookaheads → Calls g k s (.reduce item.production)

/-- What the rows of the table of a grammar are computed from. -/
def tableSource (g : Grammar) : Table.Source :=
  { productions := g.productions.toArray
    symbols := g.symbols.toArray
    terminals := g.terminals
    sorted := Table.sortedTerminals g
    numbered := g.numbers
    automaton := g.automaton
    first := g.numbers.first }

/-- What the rows of a table are computed from, one part after the other. -/
theorem tableSource_eq {g : Grammar} {source : Table.Source} (productions : g.productions.toArray = source.productions)
    (symbols : g.symbols = source.symbols.toList) (terminals : g.terminals = source.terminals)
    (sorted : ((Grammar.distinctAfter [] source.terminals).mergeSort fun s t => !(t < s)).map
      (fun name => (name, source.symbols.toList.idxOf name)) = source.sorted)
    (numbered : g.numbers = source.numbered) (automaton : Automaton.of source.numbered = source.automaton)
    (first : source.numbered.first = source.first) : g.tableSource = source := by
  unfold tableSource Table.sortedTerminals Grammar.automaton
  dsimp only
  rw [productions, symbols, terminals, sorted, numbered, automaton, first]

theorem numbers_of_tableSource {g : Grammar} {source : Table.Source} (same : g.tableSource = source) :
    g.numbers = source.numbered := by
  rw [← same, tableSource]

theorem automaton_of_tableSource {g : Grammar} {source : Table.Source} (same : g.tableSource = source) :
    g.automaton = source.automaton := by
  rw [← same, tableSource]

namespace Table

variable {g : Grammar}

/-! ### Columns -/

theorem columnIn_eq_some {terminals : List String} {s : String} {column : Nat}
    (found : columnIn terminals s = some column) : terminals[column]? = some s := by
  unfold columnIn at found
  split at found
  · exact absurd found (by simp)
  · rename_i k searched
    obtain ⟨inside, same, _⟩ := List.idxOf?_eq_some_iff.mp searched
    rw [← Option.some.inj found]
    rw [List.getElem_reverse] at same
    rw [List.length_reverse] at inside
    rw [List.getElem?_eq_getElem (by omega)]
    exact congrArg some same

theorem columnIn_inj {terminals : List String} {s other : String} {column : Nat}
    (one : columnIn terminals s = some column) (two : columnIn terminals other = some column) :
    s = other :=
  Option.some.inj ((columnIn_eq_some one).symm.trans (columnIn_eq_some two))

theorem exists_columnIn {terminals : List String} {s : String} (member : s ∈ terminals) :
    ∃ column, columnIn terminals s = some column := by
  unfold columnIn
  split
  · rename_i absent
    rw [List.idxOf?_eq_none_iff, List.mem_reverse] at absent
    exact absurd member absent
  · exact ⟨_, rfl⟩

theorem columnIn_lt {terminals : List String} {s : String} {column : Nat}
    (found : columnIn terminals s = some column) : column < terminals.length :=
  (List.getElem?_eq_some_iff.mp (columnIn_eq_some found)).1

/-! ### Entering actions -/

/-- What entering an action into a row does: the cell holds what it held or the action, other cells stay,
conflicts are only added, and where none is the cell holds the action. -/
structure Enters (terminals : List String) (s : String) (action : Action) (before after : RowState) :
    Prop where
  size_eq : after.row.size = before.row.size
  sound : ∀ column act, after.row.getD column none = some act → before.row.getD column none = some act ∨
    (columnIn terminals s = some column ∧ act = action)
  grows : ∃ more, after.conflicts = before.conflicts ++ more
  kept : after.conflicts = before.conflicts → ∀ column act, before.row.getD column none = some act →
    after.row.getD column none = some act
  entered : after.conflicts = before.conflicts → ∀ column, columnIn terminals s = some column →
    column < before.row.size → after.row.getD column none = some action

theorem getD_setIfInBounds (row : Array (Option Action)) (column : Nat) (action : Action) (i : Nat) :
    (row.setIfInBounds column (some action)).getD i none =
      if i = column ∧ column < row.size then some action else row.getD i none := by
  rw [Array.getD_eq_getD_getElem?, Array.getD_eq_getD_getElem?, Array.getElem?_setIfInBounds]
  by_cases same : i = column
  · subst same
    by_cases inside : i < row.size
    · simp [inside]
    · simp [inside]
  · simp [same, Ne.symm same]

/-- Where a conflict is recorded, the row may only gain the action. -/
theorem enters_conflict {terminals : List String} {s : String} {action : Action} {before : RowState}
    {column : Nat} (found : columnIn terminals s = some column) (row : Array (Option Action))
    (choice : row = before.row ∨ row = before.row.setIfInBounds column (some action))
    (conflict : Conflict) : Enters terminals s action before ⟨row, before.conflicts ++ [conflict]⟩ := by
  have changed : before.conflicts ++ [conflict] ≠ before.conflicts := by simp
  refine ⟨?_, fun i act holds => ?_, ⟨_, rfl⟩, fun same => absurd same changed,
    fun same => absurd same changed⟩
  · rcases choice with rfl | rfl
    · rfl
    · exact Array.size_setIfInBounds
  · rcases choice with rfl | rfl
    · exact Or.inl holds
    · rw [getD_setIfInBounds] at holds
      split at holds
      · rename_i here
        rw [here.1]
        exact Or.inr ⟨found, (Option.some.inj holds).symm⟩
      · exact Or.inl holds

theorem enters_resolve {productions : Array Production} {terminals : List String} {state column : Nat}
    {s : String} {current action : Action} {before after : RowState}
    (found : columnIn terminals s = some column)
    (made : resolve productions state s column current action before = .ok after) :
    Enters terminals s action before after := by
  unfold resolve at made
  split at made
  · split at made
    · exact absurd made (by simp)
    · obtain rfl := Except.ok.inj made
      exact enters_conflict found _ (Or.inl rfl) _
  · split at made
    · exact absurd made (by simp)
    · obtain rfl := Except.ok.inj made
      exact enters_conflict found _ (Or.inr rfl) _
  · split at made <;> exact absurd made (by simp)

/-- **Entering an action.** -/
theorem enters_setAction {productions : Array Production} {terminals : List String} {state : Nat}
    {s : String} {action : Action} {before after : RowState}
    (made : setAction productions terminals state s action before = .ok after) :
    Enters terminals s action before after := by
  unfold setAction at made
  split at made
  · rename_i absent
    obtain rfl := Except.ok.inj made
    refine ⟨rfl, fun _ _ holds => Or.inl holds, ⟨[], by simp⟩, fun _ _ _ holds => holds, ?_⟩
    intro _ column found
    rw [absent] at found
    exact absurd found (by simp)
  · rename_i column found
    split at made
    · rename_i vacant
      obtain rfl := Except.ok.inj made
      refine ⟨Array.size_setIfInBounds, fun i act holds => ?_, ⟨[], by simp⟩, fun _ i act holds => ?_,
        fun _ i here inside => ?_⟩
      · rw [getD_setIfInBounds] at holds
        split at holds
        · rename_i here
          rw [here.1]
          exact Or.inr ⟨found, (Option.some.inj holds).symm⟩
        · exact Or.inl holds
      · rw [getD_setIfInBounds]
        split
        · rename_i here
          rw [here.1, vacant] at holds
          exact absurd holds (by simp)
        · exact holds
      · obtain rfl := Option.some.inj (found.symm.trans here)
        rw [getD_setIfInBounds, if_pos ⟨rfl, inside⟩]
    · rename_i current occupied
      split at made
      · rename_i same
        obtain rfl := Except.ok.inj made
        refine ⟨rfl, fun _ _ holds => Or.inl holds, ⟨[], by simp⟩, fun _ _ _ holds => holds, ?_⟩
        intro _ i here _
        obtain rfl := Option.some.inj (found.symm.trans here)
        rw [occupied, same]
      · exact enters_resolve found made

/-- What entering a list of actions into a row does. -/
structure EntersAll (terminals : List String) (calls : List (String × Action)) (before after : RowState) :
    Prop where
  size_eq : after.row.size = before.row.size
  sound : ∀ column act, after.row.getD column none = some act → before.row.getD column none = some act ∨
    ∃ s, (s, act) ∈ calls ∧ columnIn terminals s = some column
  grows : ∃ more, after.conflicts = before.conflicts ++ more
  kept : after.conflicts = before.conflicts → ∀ column act, before.row.getD column none = some act →
    after.row.getD column none = some act
  entered : after.conflicts = before.conflicts → ∀ s act column, (s, act) ∈ calls →
    columnIn terminals s = some column → column < before.row.size →
      after.row.getD column none = some act

/-- Conflicts that are only added and end where they began never changed. -/
theorem conflicts_between {first middle last : List Conflict} (one : ∃ more, middle = first ++ more)
    (other : ∃ more, last = middle ++ more) (same : last = first) : middle = first ∧ last = middle := by
  obtain ⟨more, rfl⟩ := one
  obtain ⟨rest, rfl⟩ := other
  have lengths := congrArg List.length same
  simp only [List.length_append] at lengths
  have noMore : more = [] := List.length_eq_zero_iff.mp (by omega)
  have noRest : rest = [] := List.length_eq_zero_iff.mp (by omega)
  rw [noMore, noRest]
  simp

theorem EntersAll.cons {terminals : List String} {calls : List (String × Action)} {s : String}
    {action : Action} {before middle after : RowState} (one : Enters terminals s action before middle)
    (rest : EntersAll terminals calls middle after) :
    EntersAll terminals ((s, action) :: calls) before after := by
  refine ⟨rest.size_eq.trans one.size_eq, fun column act holds => ?_, ?_, fun same column act holds => ?_,
    fun same s' act column member found inside => ?_⟩
  · rcases rest.sound column act holds with early | ⟨s', member, found⟩
    · rcases one.sound column act early with earlier | ⟨found, rfl⟩
      · exact Or.inl earlier
      · exact Or.inr ⟨s, List.mem_cons_self, found⟩
    · exact Or.inr ⟨s', List.mem_cons_of_mem _ member, found⟩
  · obtain ⟨more, grown⟩ := one.grows
    obtain ⟨most, grownMore⟩ := rest.grows
    exact ⟨more ++ most, by rw [grownMore, grown, List.append_assoc]⟩
  · obtain ⟨sameMiddle, sameAfter⟩ := conflicts_between one.grows rest.grows same
    exact rest.kept sameAfter column act (one.kept sameMiddle column act holds)
  · obtain ⟨sameMiddle, sameAfter⟩ := conflicts_between one.grows rest.grows same
    rcases List.mem_cons.mp member with here | later
    · obtain ⟨rfl, rfl⟩ := Prod.mk.inj here
      exact rest.kept sameAfter column _ (one.entered sameMiddle column found inside)
    · exact rest.entered sameAfter s' act column later found (by rw [one.size_eq]; exact inside)

theorem entersAll_foldlM {productions : Array Production} {terminals : List String} {state : Nat}
    {calls : List (String × Action)} {before after : RowState}
    (made : calls.foldlM (fun (s : RowState) (call : String × Action) =>
      setAction productions terminals state call.1 call.2 s) before = .ok after) :
    EntersAll terminals calls before after := by
  induction calls generalizing before with
  | nil =>
    obtain rfl : before = after := by simpa [pure, Except.pure] using made
    exact ⟨rfl, fun _ _ holds => Or.inl holds, ⟨[], by simp⟩, fun _ _ _ holds => holds,
      fun _ _ _ _ member => absurd member List.not_mem_nil⟩
  | cons call calls ih =>
    rw [List.foldlM_cons] at made
    cases first : setAction productions terminals state call.1 call.2 before with
    | error e =>
      rw [first] at made
      exact absurd made (by simp [bind, Except.bind])
    | ok middle =>
      rw [first] at made
      exact EntersAll.cons (enters_setAction first) (ih made)

/-! ### Rows -/

/-- All actions that the items of a state call for, in the order in which they are entered. -/
def stateCalls (g : Grammar) (k : Nat) : List (String × Action) :=
  (g.closureAt k).flatMap fun pair => actionsOf g.tableSource k pair.1 pair.2

theorem mem_sortedTerminals {s : String} {x : Nat} :
    (s, x) ∈ sortedTerminals g ↔ s ∈ g.terminals ∧ x = g.code s := by
  unfold sortedTerminals
  rw [List.mem_map]
  constructor
  · rintro ⟨name, member, same⟩
    obtain ⟨rfl, rfl⟩ := Prod.mk.inj same
    exact ⟨(Grammar.mem_distinctAfter.mp (List.mem_mergeSort.mp member)).1, rfl⟩
  · rintro ⟨member, rfl⟩
    refine ⟨s, List.mem_mergeSort.mpr (Grammar.mem_distinctAfter.mpr ⟨member, ?_⟩), rfl⟩
    exact List.not_mem_nil

theorem mem_actionsOf {k : Nat} {item : Item} {lookaheads : SymbolSet} {s : String} {act : Action} :
    (s, act) ∈ actionsOf g.tableSource k item lookaheads ↔
      (∃ x j, g.numbers.nextSymbol? item = some x ∧ x ∈ g.numbers.terminal ∧
        g.automaton.target? k x = some j ∧ g.symbols[x]? = some s ∧ act = .shift j) ∨
      (g.numbers.nextSymbol? item = none ∧ item.production = 0 ∧ s = endSymbol ∧ act = .accept) ∨
      (g.numbers.nextSymbol? item = none ∧ item.production ≠ 0 ∧ s ∈ g.terminals ∧
        g.code s ∈ lookaheads ∧ act = .reduce item.production) := by
  unfold actionsOf tableSource
  dsimp only
  cases next : g.numbers.nextSymbol? item with
  | some x =>
    dsimp only
    rw [List.getElem?_toArray]
    split
    · rename_i isTerminal
      rw [SymbolSet.contains_iff] at isTerminal
      split
      · rename_i j name target named
        simp [isTerminal, target, named, eq_comm]
      · rename_i stuck
        simp only [List.not_mem_nil, false_iff]
        rintro (⟨x', j, same, _, target, named, _⟩ | ⟨ends, _⟩ | ⟨ends, _⟩)
        · obtain rfl := Option.some.inj same
          exact stuck j s target named
        · exact absurd ends (by simp)
        · exact absurd ends (by simp)
    · rename_i other
      rw [SymbolSet.contains_iff] at other
      simp [other]
  | none =>
    dsimp only
    split
    · rename_i implicit
      simp [implicit]
    · rename_i explicit
      simp only [List.mem_map, List.mem_filter, Prod.exists, mem_sortedTerminals, SymbolSet.contains_iff]
      constructor
      · rintro ⟨name, x, ⟨⟨member, rfl⟩, expected⟩, same⟩
        obtain ⟨rfl, rfl⟩ := Prod.mk.inj same
        exact Or.inr (Or.inr ⟨trivial, explicit, member, expected, rfl⟩)
      · rintro (⟨_, _, same, _⟩ | ⟨_, implicit, _⟩ | ⟨_, _, member, expected, rfl⟩)
        · exact absurd same (by simp)
        · exact absurd implicit explicit
        · exact ⟨s, _, ⟨⟨member, rfl⟩, expected⟩, rfl⟩

theorem mem_stateCalls (plain : g.Unreserved) {k : Nat} {s : String} {act : Action} :
    (s, act) ∈ stateCalls g k ↔ g.Calls k s act := by
  rw [stateCalls, List.mem_flatMap]
  constructor
  · rintro ⟨⟨item, lookaheads⟩, member, called⟩
    rcases mem_actionsOf.mp called with ⟨x, j, next, isTerminal, target, named, rfl⟩ |
      ⟨ends, implicit, rfl, rfl⟩ | ⟨ends, explicit, isTerminal, expected, rfl⟩
    · have codeOf : g.code s = x := by
        obtain ⟨below, rfl⟩ := List.getElem?_eq_some_iff.mp named
        exact plain.unmarked.nodup_symbols.idxOf_getElem x below
      subst codeOf
      have inSymbols : s ∈ g.symbols := List.mem_of_getElem? named
      exact .shift member next ((code_mem_terminal_iff inSymbols).mp isTerminal) target
    · exact .accept member ends implicit
    · exact .reduce member ends explicit isTerminal expected
  · intro calls
    cases calls with
    | @shift item lookaheads _ j member next isTerminal target =>
      have inSymbols : s ∈ g.symbols := mem_symbols.mpr (Or.inr isTerminal)
      exact ⟨_, member, mem_actionsOf.mpr (Or.inl ⟨_, j, next,
        (code_mem_terminal_iff inSymbols).mpr isTerminal, target, symbols_getElem? inSymbols, rfl⟩)⟩
    | accept member ends implicit =>
      exact ⟨_, member, mem_actionsOf.mpr (Or.inr (Or.inl ⟨ends, implicit, rfl, rfl⟩))⟩
    | reduce member ends explicit isTerminal expected =>
      exact ⟨_, member, mem_actionsOf.mpr (Or.inr (Or.inr ⟨ends, explicit, isTerminal, expected, rfl⟩))⟩

theorem entersAll_rowOf {k : Nat} {conflicts : List Conflict} {after : RowState}
    (made : rowOf g.tableSource k (kernelLookaheads g.numbers g.automaton k) conflicts = .ok after) :
    EntersAll g.terminals (stateCalls g k) ⟨Array.replicate g.terminals.length none, conflicts⟩ after :=
  entersAll_foldlM made

theorem grows_rowOf {source : Source} {k : Nat} {kernel : List (Item × SymbolSet)}
    {conflicts : List Conflict} {after : RowState} (made : rowOf source k kernel conflicts = .ok after) :
    ∃ more, after.conflicts = conflicts ++ more := by
  have entered : EntersAll _ _ ⟨_, conflicts⟩ after := entersAll_foldlM made
  exact entered.grows

/-- The rows that are made, state by state. -/
theorem rowsOf_spec {source : Source} {kernels : List (List (Item × SymbolSet))} {state : Nat}
    {rows rows' : Array (Array (Option Action))} {conflicts conflicts' : List Conflict}
    (made : rowsOf source state rows conflicts kernels = .ok (rows', conflicts'))
    (size_eq : rows.size = state) :
    rows'.size = state + kernels.length ∧ (∃ more, conflicts' = conflicts ++ more) ∧
      (∀ i < state, rows'[i]? = rows[i]?) ∧
        ∀ i kernel, kernels[i]? = some kernel → ∃ before after,
          rowOf source (state + i) kernel before = .ok after ∧ rows'[state + i]? = some after.row ∧
            ∃ more, conflicts' = after.conflicts ++ more := by
  induction kernels generalizing state rows conflicts with
  | nil =>
    obtain ⟨rfl, rfl⟩ : rows = rows' ∧ conflicts = conflicts' := by simpa [rowsOf] using made
    exact ⟨size_eq, ⟨[], by simp⟩, fun _ _ => rfl, fun i kernel found => absurd found (by simp)⟩
  | cons kernel kernels ih =>
    rw [rowsOf] at made
    split at made
    · exact absurd made (by simp)
    · rename_i after first
      obtain ⟨size_eq', ⟨more, grown⟩, old, new⟩ := ih made (by rw [Array.size_push, size_eq])
      obtain ⟨added, here⟩ := grows_rowOf first
      refine ⟨?_, ⟨added ++ more, ?_⟩, fun i below => ?_, fun i other found => ?_⟩
      · rw [size_eq', List.length_cons]
        omega
      · rw [grown, here, List.append_assoc]
      · rw [old i (Nat.lt_succ_of_lt below), Array.getElem?_push, if_neg (by omega)]
      · cases i with
        | zero =>
          obtain rfl := Option.some.inj found
          refine ⟨conflicts, after, first, ?_, more, grown⟩
          rw [Nat.add_zero, old state (Nat.lt_succ_self _), ← size_eq]
          simp
        | succ i =>
          obtain ⟨before, later, made', atRow, kept⟩ := new i other found
          refine ⟨before, later, ?_, ?_, kept⟩
          · rw [← made']
            congr 1
            omega
          · rw [← atRow]
            congr 1
            omega

/-! ### The table of a grammar -/

/-- What a table of a grammar consists of. -/
structure Made (g : Grammar) (t : Table) : Prop where
  start_mem : g.start ∈ g.nonterminals
  productions_eq : t.productions = g.productions.toArray
  nonterminals_eq : t.nonterminals = g.nonterminals
  terminals_eq : t.terminals = g.terminals
  rows : rowsOf g.tableSource 0 #[] [] (Grammar.lookaheads g.numbers g.automaton).toList =
    .ok (t.action, t.conflicts)
  goto_eq : t.goto = ((List.range g.automaton.kernels.size).map fun k =>
    ((List.range g.nonterminals.length).map fun x => g.automaton.target? k x).toArray).toArray

theorem made_of {t : Table} (built : Table.of g = .ok t) : Made g t := by
  unfold Table.of at built
  split at built
  · exact absurd built (by simp)
  · rename_i present
    dsimp only at built
    split at built
    · exact absurd built (by simp)
    · rename_i rows conflicts made
      obtain rfl := Except.ok.inj built
      exact ⟨by simpa using present, rfl, rfl, rfl, made, rfl⟩

/-- A grammar has a table as soon as its rows can be made. -/
theorem exists_table_of_rows (present : g.start ∈ g.nonterminals) {rows : Array (Array (Option Action))}
    {conflicts : List Conflict}
    (made : rowsOf g.tableSource 0 #[] [] (Grammar.lookaheads g.numbers g.automaton).toList =
      .ok (rows, conflicts)) : ∃ t, Table.of g = .ok t ∧ t.conflicts = conflicts := by
  unfold tableSource at made
  unfold Table.of
  rw [if_neg (by simpa using present)]
  dsimp only
  rw [made]
  exact ⟨_, rfl, rfl⟩

namespace Made

variable {t : Table}

theorem getElem?_productions (made : Made g t) {p : Nat} {production : Production}
    (found : g.productions[p]? = some production) : t.productions[p]? = some production := by
  rw [made.productions_eq, List.getElem?_toArray, found]

/-- The row of a state, as it was entered. -/
theorem exists_row (made : Made g t) {k : Nat} {kernel : List Item}
    (atState : g.automaton.kernels[k]? = some kernel) :
    ∃ before after, EntersAll g.terminals (stateCalls g k)
        ⟨Array.replicate g.terminals.length none, before⟩ after ∧
      t.action[k]? = some after.row ∧ ∃ more, t.conflicts = after.conflicts ++ more := by
  obtain ⟨_, _, _, new⟩ := rowsOf_spec made.rows rfl
  have inside := (Array.getElem?_eq_some_iff.mp atState).1
  have found : (Grammar.lookaheads g.numbers g.automaton).toList[k]? =
      some (kernelLookaheads g.numbers g.automaton k) := by
    rw [lookaheads_eq, List.getElem?_map, List.getElem?_range inside]
    rfl
  obtain ⟨before, after, entered, atRow, kept⟩ := new k _ found
  rw [Nat.zero_add] at entered atRow
  exact ⟨before, after, entersAll_rowOf entered, atRow, kept⟩

/-- There are no more rows than states. -/
theorem exists_kernel (made : Made g t) {k : Nat} {row : Array (Option Action)}
    (found : t.action[k]? = some row) : ∃ kernel, g.automaton.kernels[k]? = some kernel := by
  obtain ⟨size_eq, _⟩ := rowsOf_spec made.rows rfl
  have inside := (Array.getElem?_eq_some_iff.mp found).1
  rw [size_eq, lookaheads_eq] at inside
  refine ⟨_, Array.getElem?_eq_getElem ?_⟩
  simpa using inside

/-- **Every action of a table is one that an item of the state calls for.** -/
theorem calls_of_action? (made : Made g t) (plain : g.Unreserved) {k : Nat} {s : String} {act : Action}
    (found : t.action? k s = some act) :
    (∃ kernel, g.automaton.kernels[k]? = some kernel) ∧ g.Calls k s act := by
  unfold action? at found
  split at found
  · rename_i column row atColumn atRow
    rw [made.terminals_eq] at atColumn
    obtain ⟨kernel, atState⟩ := made.exists_kernel atRow
    obtain ⟨before, after, entered, atRow', _⟩ := made.exists_row atState
    obtain rfl := Option.some.inj (atRow.symm.trans atRow')
    rcases entered.sound column act found with vacant | ⟨s', member, atColumn'⟩
    · rw [Array.getD_eq_getD_getElem?, Array.getElem?_replicate] at vacant
      split at vacant <;> exact absurd vacant (by simp)
    · obtain rfl := columnIn_inj atColumn atColumn'
      exact ⟨⟨kernel, atState⟩, (mem_stateCalls plain).mp member⟩
  · exact absurd found (by simp)

theorem mem_terminals_of_calls {k : Nat} {s : String} {act : Action} (calls : g.Calls k s act) :
    s ∈ g.terminals := by
  cases calls with
  | shift _ _ isTerminal _ => exact isTerminal
  | accept => exact end_mem_terminals
  | reduce _ _ _ isTerminal _ => exact isTerminal

/-- **In a table without conflicts every action that an item of a state calls for is there.** -/
theorem action?_of_calls (made : Made g t) (plain : g.Unreserved) (unambiguous : t.conflicts = [])
    {k : Nat} {kernel : List Item} (atState : g.automaton.kernels[k]? = some kernel) {s : String}
    {act : Action} (calls : g.Calls k s act) : t.action? k s = some act := by
  obtain ⟨before, after, entered, atRow, more, kept⟩ := made.exists_row atState
  obtain ⟨column, atColumn⟩ := exists_columnIn (mem_terminals_of_calls calls)
  rw [unambiguous] at kept
  have none : after.conflicts = [] := (List.append_eq_nil_iff.mp kept.symm).1
  obtain ⟨added, grown⟩ := entered.grows
  have same : after.conflicts = before := by
    rw [none] at grown ⊢
    exact (List.append_eq_nil_iff.mp grown.symm).1.symm
  unfold action?
  rw [made.terminals_eq, atColumn, atRow]
  refine entered.entered same s act column ((mem_stateCalls plain).mpr calls) atColumn ?_
  rw [Array.size_replicate]
  exact columnIn_lt atColumn

/-- **The state after a nonterminal** is the target of its transition. -/
theorem goto?_eq (made : Made g t) {k : Nat} {kernel : List Item}
    (atState : g.automaton.kernels[k]? = some kernel) {s : String} (member : s ∈ g.nonterminals) :
    t.goto? k s = g.automaton.target? k (g.code s) := by
  have inside := (Array.getElem?_eq_some_iff.mp atState).1
  have column : g.nonterminals.idxOf? s = some (g.code s) := by
    rw [← nonterminals_idxOf member]
    exact List.findIdx?_eq_some_iff_findIdx_eq.mpr ⟨List.idxOf_lt_length_iff.mpr member, rfl⟩
  unfold goto?
  rw [made.nonterminals_eq, column, made.goto_eq, List.getElem?_toArray, List.getElem?_map,
    List.getElem?_range inside]
  dsimp only [Option.map_some]
  rw [Array.getD_eq_getD_getElem?, List.getElem?_toArray, List.getElem?_map,
    List.getElem?_range (code_lt_nonterminals_iff.mpr member)]
  rfl

end Made

end Table

end XPathAnnotator.Grammar
