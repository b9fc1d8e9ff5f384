/-
**How a cell is filled.**

The actions that a state calls for are entered one after the other, each into the cell of its terminal. What
becomes of a cell depends on the actions for its own terminal only, in their order: `settle` enters them into one
cell, and `foldlM_cases` says that a row is made exactly if every cell can be settled, with the contents and the
number of conflicts of the cells.

* `settle_eq_some` — a settled cell holds the action that prevails: one that reads the terminal if there is one,
  whatever the order;
* `exists_clash_of_settle` — a cell that is refused has two different actions that are not a choice between reading
  and applying a production.
-/

import Mathlib
import XPathAnnotator.Proofs.Grammar.Cells

namespace XPathAnnotator.Grammar

/-- An action that reads the terminal. -/
def Action.Reads : Action → Prop
  | shift _ => True
  | _ => False

/-- Two actions clash if a cell cannot hold the one after the other: they are different, and are not a choice
between reading the terminal and applying a production. -/
def Action.Clash (one other : Action) : Prop :=
  one ≠ other ∧ ¬ (one.Reads ∧ ∃ p, other = .reduce p) ∧ ¬ (other.Reads ∧ ∃ p, one = .reduce p)

namespace Table

/-! ### One cell -/

/-- What a cell holds after two different actions, and the number of conflicts recorded, unless it is refused. -/
def weigh : Action → Action → Option (Option Action × Nat)
  | .shift j, .reduce _ => some (some (.shift j), 1)
  | .reduce _, .shift j => some (some (.shift j), 1)
  | _, _ => none

/-- What a cell holds after one more action, and the number of conflicts recorded with it, unless it is refused. -/
def enterCell : Option Action → Action → Option (Option Action × Nat)
  | none, action => some (some action, 0)
  | some current, action => if current = action then some (some current, 0) else weigh current action

/-- What a cell holds after a row of actions, and the number of conflicts recorded with them, unless one is
refused. -/
def settle : Option Action → List Action → Option (Option Action × Nat)
  | cell, [] => some (cell, 0)
  | cell, action :: actions =>
    (enterCell cell action).bind fun first =>
      (settle first.1 actions).map fun last => (last.1, first.2 + last.2)

/-- The number of conflicts recorded for a cell. -/
def clashes (cell : Option Action) (actions : List Action) : Nat :=
  ((settle cell actions).map Prod.snd).getD 0

theorem settle_cons {cell next : Option Action} {action : Action} {count : Nat} (actions : List Action)
    (entered : enterCell cell action = some (next, count)) :
    settle cell (action :: actions) = (settle next actions).map fun last => (last.1, count + last.2) := by
  rw [settle, entered]
  rfl

theorem settle_cons_refused {cell : Option Action} {action : Action} (actions : List Action)
    (refused : enterCell cell action = none) : settle cell (action :: actions) = none := by
  rw [settle, refused]
  rfl

/-- What entering an action does: it fills a vacant cell, is there already, or is weighed against another one. -/
theorem enterCell_cases {cell next : Option Action} {action : Action} {count : Nat}
    (entered : enterCell cell action = some (next, count)) :
    (next = some action ∧ (cell = none ∨ cell = some action)) ∨
      (∃ j p, cell = some (.shift j) ∧ action = .reduce p ∧ next = some (.shift j)) ∨
      ∃ j p, cell = some (.reduce p) ∧ action = .shift j ∧ next = some (.shift j) := by
  cases cell with
  | none =>
    obtain ⟨rfl, -⟩ := Prod.mk.inj (Option.some.inj entered)
    exact .inl ⟨rfl, .inl rfl⟩
  | some current =>
    rw [enterCell] at entered
    split at entered
    · rename_i same
      obtain ⟨rfl, -⟩ := Prod.mk.inj (Option.some.inj entered)
      exact .inl ⟨by rw [same], .inr (by rw [same])⟩
    · unfold weigh at entered
      split at entered
      · obtain ⟨rfl, -⟩ := Prod.mk.inj (Option.some.inj entered)
        exact .inr (.inl ⟨_, _, rfl, rfl, rfl⟩)
      · obtain ⟨rfl, -⟩ := Prod.mk.inj (Option.some.inj entered)
        exact .inr (.inr ⟨_, _, rfl, rfl, rfl⟩)
      · exact absurd entered (by simp)

/-- An action is refused by one that it clashes with. -/
theorem clash_of_enterCell {cell : Option Action} {action : Action} (refused : enterCell cell action = none) :
    ∃ held, cell = some held ∧ held.Clash action := by
  cases cell with
  | none => exact absurd refused (by simp [enterCell])
  | some held =>
    rw [enterCell] at refused
    split at refused
    · exact absurd refused (by simp)
    · rename_i different
      refine ⟨held, rfl, different, ?_, ?_⟩
      · rintro ⟨reads, p, rfl⟩
        cases held with
        | shift j => exact absurd refused (by simp [weigh])
        | reduce q => exact reads
        | accept => exact reads
      · rintro ⟨reads, p, rfl⟩
        cases action with
        | shift j => exact absurd refused (by simp [weigh])
        | reduce q => exact reads
        | accept => exact reads

/-! ### What a cell holds in the end -/

/-- An action prevails among others if it reads the terminal or none of them does. -/
def Prevails (actions : List Action) (act : Action) : Prop :=
  act ∈ actions ∧ (act.Reads ∨ ∀ other ∈ actions, ¬ other.Reads)

/-- Entering an action does not change what prevails. -/
theorem prevails_enterCell {cell next : Option Action} {action : Action} {count : Nat}
    (entered : enterCell cell action = some (next, count)) (actions : List Action) (act : Action) :
    Prevails (next.toList ++ actions) act ↔ Prevails (cell.toList ++ action :: actions) act := by
  rcases enterCell_cases entered with ⟨rfl, rfl | rfl⟩ | ⟨j, p, rfl, rfl, rfl⟩ | ⟨j, p, rfl, rfl, rfl⟩
  · rfl
  · simp [Prevails]
  · cases act <;> simp [Prevails, Action.Reads]
  · cases act <;> simp [Prevails, Action.Reads]

/-- **A settled cell holds the action that prevails.** -/
theorem settle_eq_some {cell last : Option Action} {actions : List Action} {count : Nat}
    (settled : settle cell actions = some (last, count)) (act : Action) :
    last = some act ↔ Prevails (cell.toList ++ actions) act := by
  induction actions generalizing cell count with
  | nil =>
    obtain ⟨rfl, -⟩ := Prod.mk.inj (Option.some.inj settled)
    cases cell with
    | none => simp [Prevails]
    | some held => cases held <;> cases act <;> simp [Prevails, Action.Reads, eq_comm]
  | cons action actions ih =>
    cases entered : enterCell cell action with
    | none =>
      rw [settle_cons_refused actions entered] at settled
      exact absurd settled (by simp)
    | some first =>
      obtain ⟨next, more⟩ := first
      rw [settle_cons actions entered, Option.map_eq_some_iff] at settled
      obtain ⟨⟨last', rest⟩, settledRest, same⟩ := settled
      obtain ⟨rfl, -⟩ := Prod.mk.inj same
      rw [ih settledRest]
      exact prevails_enterCell entered actions act

/-- **A cell that is refused has two actions that clash.** -/
theorem exists_clash_of_settle {cell : Option Action} {actions : List Action}
    (refused : settle cell actions = none) :
    ∃ one ∈ cell.toList ++ actions, ∃ other ∈ cell.toList ++ actions, one.Clash other := by
  induction actions generalizing cell with
  | nil => exact absurd refused (by simp [settle])
  | cons action actions ih =>
    cases entered : enterCell cell action with
    | none =>
      obtain ⟨held, rfl, clash⟩ := clash_of_enterCell entered
      exact ⟨held, by simp, action, by simp, clash⟩
    | some first =>
      obtain ⟨next, more⟩ := first
      rw [settle_cons actions entered, Option.map_eq_none_iff] at refused
      obtain ⟨one, inOne, other, inOther, clash⟩ := ih refused
      have kept : ∀ act ∈ next.toList ++ actions, act ∈ cell.toList ++ action :: actions := by
        intro act member
        rcases enterCell_cases entered with ⟨rfl, _⟩ | ⟨j, p, rfl, _, rfl⟩ | ⟨j, p, _, rfl, rfl⟩
        · rcases List.mem_append.mp member with here | later
          · rw [List.mem_singleton.mp here]
            simp
          · simp [later]
        · rcases List.mem_append.mp member with here | later
          · simp [List.mem_singleton.mp here]
          · simp [later]
        · rcases List.mem_append.mp member with here | later
          · simp [List.mem_singleton.mp here]
          · simp [later]
      exact ⟨one, kept one inOne, other, kept other inOther, clash⟩

/-! ### One row -/

section Row

variable {productions : Array Production} {terminals : List String}

/-- The actions for the terminal of a column, in the order in which they are entered. -/
def callsIn (terminals : List String) (calls : List (String × Action)) (column : Nat) : List Action :=
  calls.filterMap fun call => if columnIn terminals call.1 = some column then some call.2 else none

/-- The production that an action applies is there. -/
def Known (productions : Array Production) (act : Action) : Prop :=
  ∀ p, act = .reduce p → p < productions.size

/-- A row whose cells hold actions with known productions. -/
structure Ready (productions : Array Production) (terminals : List String) (s : RowState) : Prop where
  wide : s.row.size = terminals.length
  known : ∀ column act, s.row.getD column none = some act → Known productions act

/-- A row with one more action. -/
theorem Ready.set {before : RowState} (ready : Ready productions terminals before) {action : Action}
    (known : Known productions action) (column : Nat) (conflicts : List Conflict) :
    Ready productions terminals ⟨before.row.setIfInBounds column (some action), conflicts⟩ := by
  refine ⟨Array.size_setIfInBounds.trans ready.wide, fun i act holds => ?_⟩
  rw [getD_setIfInBounds] at holds
  split at holds
  · rw [← Option.some.inj holds]
    exact known
  · exact ready.known i act holds

/-- **Entering an action** is entering it into its cell. -/
theorem setAction_cases (state : Nat) {before : RowState} (ready : Ready productions terminals before)
    {s : String} {action : Action} (known : Known productions action) {column : Nat}
    (found : columnIn terminals s = some column) :
    (enterCell (before.row.getD column none) action = none ∧
        ∃ e, setAction productions terminals state s action before = .error e) ∨
      ∃ cell count after, enterCell (before.row.getD column none) action = some (cell, count) ∧
        setAction productions terminals state s action before = .ok after ∧ Ready productions terminals after ∧
          (∀ i, after.row.getD i none = if i = column then cell else before.row.getD i none) ∧
            after.conflicts.length = before.conflicts.length + count := by
  have inside : column < before.row.size := by
    rw [ready.wide]
    exact columnIn_lt found
  have written : ∀ i, (before.row.setIfInBounds column (some action)).getD i none =
      if i = column then some action else before.row.getD i none := by
    intro i
    rw [getD_setIfInBounds]
    simp [inside]
  unfold setAction
  rw [found]
  dsimp only
  cases held : before.row.getD column none with
  | none => exact .inr ⟨some action, 0, _, rfl, rfl, ready.set known column _, written, rfl⟩
  | some current =>
    have kept : ∀ i, before.row.getD i none = if i = column then some current else before.row.getD i none := by
      intro i
      split
      · rename_i here
        rw [here, held]
      · rfl
    by_cases same : current = action
    · exact .inr ⟨some current, 0, before, by rw [enterCell, if_pos same], if_pos same, ready, kept, rfl⟩
    · dsimp only
      rw [if_neg same, enterCell, if_neg same]
      unfold resolve
      split
      · rename_i j p
        rw [Array.getElem?_eq_getElem (known p rfl)]
        exact .inr ⟨_, 1, _, rfl, rfl, ⟨ready.wide, ready.known⟩, kept, by simp⟩
      · rename_i p j
        rw [Array.getElem?_eq_getElem (ready.known column _ held p rfl)]
        exact .inr ⟨_, 1, _, rfl, rfl, ready.set known column _, written, by simp⟩
      · rename_i notRead notReduced
        refine .inl ⟨?_, ?_⟩
        · unfold weigh
          split
          · exact absurd rfl (notRead _ _ rfl)
          · exact absurd rfl (notReduced _ _ rfl)
          · rfl
        · split
          · exact ⟨_, rfl⟩
          · exact ⟨_, rfl⟩
          · exact ⟨_, rfl⟩

/-- What entering a list of actions makes of a row: each cell is settled with the actions for its terminal, and
the conflicts of all cells are recorded. -/
structure Fills (terminals : List String) (calls : List (String × Action)) (before after : RowState) : Prop where
  cells : ∀ column, settle (before.row.getD column none) (callsIn terminals calls column) =
    some (after.row.getD column none, clashes (before.row.getD column none) (callsIn terminals calls column))
  count : after.conflicts.length = before.conflicts.length +
    ∑ column ∈ Finset.range terminals.length,
      clashes (before.row.getD column none) (callsIn terminals calls column)

theorem callsIn_cons (s : String) (action : Action) (calls : List (String × Action)) (column : Nat) :
    callsIn terminals ((s, action) :: calls) column =
      if columnIn terminals s = some column then action :: callsIn terminals calls column
      else callsIn terminals calls column := by
  unfold callsIn
  rw [List.filterMap_cons]
  by_cases here : columnIn terminals s = some column
  · simp [here]
  · simp [here]

/-- An action for no column does not count. -/
theorem callsIn_cons_absent {s : String} (absent : columnIn terminals s = none) (action : Action)
    (calls : List (String × Action)) (column : Nat) :
    callsIn terminals ((s, action) :: calls) column = callsIn terminals calls column := by
  rw [callsIn_cons, absent, if_neg (by simp)]

theorem Fills.skip {s : String} (absent : columnIn terminals s = none) (action : Action)
    {calls : List (String × Action)} {before after : RowState} (fills : Fills terminals calls before after) :
    Fills terminals ((s, action) :: calls) before after := by
  refine ⟨fun column => ?_, ?_⟩
  · rw [callsIn_cons_absent absent]
    exact fills.cells column
  · rw [Finset.sum_congr rfl fun column _ => by rw [callsIn_cons_absent absent]]
    exact fills.count

/-- One more action before a row is filled. -/
theorem Fills.cons {s : String} {action : Action} {calls : List (String × Action)} {before middle after : RowState}
    {column count : Nat} {cell : Option Action} (found : columnIn terminals s = some column)
    (entered : enterCell (before.row.getD column none) action = some (cell, count))
    (written : ∀ i, middle.row.getD i none = if i = column then cell else before.row.getD i none)
    (counted : middle.conflicts.length = before.conflicts.length + count)
    (fills : Fills terminals calls middle after) : Fills terminals ((s, action) :: calls) before after := by
  -- Only the cell of the column changes, and the count of its conflicts.
  have others : ∀ i, i ≠ column →
      callsIn terminals ((s, action) :: calls) i = callsIn terminals calls i ∧
        middle.row.getD i none = before.row.getD i none := by
    intro i other
    refine ⟨?_, by rw [written, if_neg other]⟩
    rw [callsIn_cons, found, if_neg]
    exact fun same => other (Option.some.inj same).symm
  have here : callsIn terminals ((s, action) :: calls) column = action :: callsIn terminals calls column := by
    rw [callsIn_cons, if_pos found]
  have filled : middle.row.getD column none = cell := by rw [written, if_pos rfl]
  have settled : settle (before.row.getD column none) (action :: callsIn terminals calls column) =
      some (after.row.getD column none, count + clashes cell (callsIn terminals calls column)) := by
    rw [settle_cons _ entered, ← filled, fills.cells column]
    rfl
  have clashesAt : ∀ i, clashes (before.row.getD i none) (callsIn terminals ((s, action) :: calls) i) =
      clashes (middle.row.getD i none) (callsIn terminals calls i) + if i = column then count else 0 := by
    intro i
    by_cases same : i = column
    · subst same
      rw [here, clashes, settled, if_pos rfl, filled]
      exact Nat.add_comm _ _
    · rw [(others i same).1, (others i same).2, if_neg same, Nat.add_zero]
  refine ⟨fun i => ?_, ?_⟩
  · by_cases same : i = column
    · subst same
      rw [here, clashes, settled]
      rfl
    · rw [(others i same).1, ← (others i same).2]
      exact fills.cells i
  · have inside : column ∈ Finset.range terminals.length := Finset.mem_range.mpr (columnIn_lt found)
    rw [fills.count, counted, Finset.sum_congr rfl fun i _ => clashesAt i, Finset.sum_add_distrib,
      Finset.sum_ite_eq' _ column, if_pos inside]
    omega

/-- **A row is made exactly if every cell can be settled**, and then it is filled with what settles them. -/
theorem foldlM_cases (state : Nat) {calls : List (String × Action)} {before : RowState}
    (ready : Ready productions terminals before) (known : ∀ call ∈ calls, Known productions call.2) :
    (∃ after, calls.foldlM (fun (s : RowState) (call : String × Action) =>
        setAction productions terminals state call.1 call.2 s) before = .ok after ∧
          Fills terminals calls before after) ∨
      (∃ e, calls.foldlM (fun (s : RowState) (call : String × Action) =>
        setAction productions terminals state call.1 call.2 s) before = .error e) ∧
          ∃ column, settle (before.row.getD column none) (callsIn terminals calls column) = none := by
  induction calls generalizing before with
  | nil =>
    refine .inl ⟨before, rfl, fun _ => rfl, ?_⟩
    simp [callsIn, clashes, settle]
  | cons call calls ih =>
    obtain ⟨s, action⟩ := call
    have knownRest : ∀ call ∈ calls, Known productions call.2 :=
      fun call member => known call (List.mem_cons_of_mem _ member)
    rw [List.foldlM_cons]
    cases found : columnIn terminals s with
    | none =>
      have made : setAction productions terminals state s action before = .ok before := by
        rw [setAction, found]
      rw [made]
      rcases ih ready knownRest with ⟨after, rest, fills⟩ | ⟨failed, column, refused⟩
      · exact .inl ⟨after, rest, fills.skip found action⟩
      · exact .inr ⟨failed, column, by rw [callsIn_cons_absent found, refused]⟩
    | some column =>
      have here : callsIn terminals ((s, action) :: calls) column = action :: callsIn terminals calls column := by
        rw [callsIn_cons, if_pos found]
      rcases setAction_cases state ready (known _ List.mem_cons_self) found with
        ⟨refused, e, failed⟩ | ⟨cell, count, middle, entered, made, readyMiddle, written, counted⟩
      · refine .inr ⟨⟨e, by rw [failed]; rfl⟩, column, ?_⟩
        rw [here, settle_cons_refused _ refused]
      · rw [made]
        rcases ih readyMiddle knownRest with ⟨after, rest, fills⟩ | ⟨failed, i, refused⟩
        · exact .inl ⟨after, rest, .cons found entered written counted fills⟩
        · refine .inr ⟨failed, i, ?_⟩
          rw [written] at refused
          by_cases same : i = column
          · subst same
            rw [if_pos rfl] at refused
            rw [here, settle_cons _ entered, refused]
            rfl
          · rw [if_neg same] at refused
            rw [callsIn_cons, found, if_neg (fun equal => same (Option.some.inj equal).symm)]
            exact refused

end Row

theorem getD_replicate_none (width column : Nat) :
    (Array.replicate width (none : Option Action)).getD column none = none := by
  rw [Array.getD_eq_getD_getElem?, Array.getElem?_replicate]
  split <;> rfl

/-! ### All rows -/

/-- The rows of states are made exactly if each of them is, and record as many conflicts as the rows do. -/
theorem rowsOf_cases {source : Source} {kernels : List (List (Item × SymbolSet))} (refused : Nat → Prop)
    (count : Nat → Nat) (state : Nat)
    (each : ∀ i kernel, kernels[i]? = some kernel → ∀ conflicts,
      (∃ after, rowOf source (state + i) kernel conflicts = .ok after ∧
          after.conflicts.length = conflicts.length + count (state + i)) ∨
        (∃ e, rowOf source (state + i) kernel conflicts = .error e) ∧ refused (state + i))
    (rows : Array (Array (Option Action))) (conflicts : List Conflict) :
    (∃ rows' conflicts', rowsOf source state rows conflicts kernels = .ok (rows', conflicts') ∧
        conflicts'.length = conflicts.length + ∑ i ∈ Finset.range kernels.length, count (state + i)) ∨
      (∃ e, rowsOf source state rows conflicts kernels = .error e) ∧
        ∃ i < kernels.length, refused (state + i) := by
  induction kernels generalizing state rows conflicts with
  | nil => exact .inl ⟨rows, conflicts, rfl, by simp⟩
  | cons kernel kernels ih =>
    have shift : ∀ i, state + 1 + i = state + (i + 1) := fun i => by omega
    have rest := ih (state + 1) fun i other found conflicts => by
      rw [shift]
      exact each (i + 1) other found conflicts
    rw [rowsOf]
    rcases each 0 kernel rfl conflicts with ⟨after, made, counted⟩ | ⟨⟨e, failed⟩, refusedHere⟩
    · rw [Nat.add_zero] at made counted
      rw [made]
      dsimp only
      rcases rest (rows.push after.row) after.conflicts with
        ⟨rows', conflicts', madeRest, countedRest⟩ | ⟨failed, i, below, refusedLater⟩
      · refine .inl ⟨rows', conflicts', madeRest, ?_⟩
        rw [countedRest, counted, List.length_cons, Finset.sum_range_succ']
        simp only [shift, Nat.add_zero]
        omega
      · refine .inr ⟨failed, i + 1, Nat.succ_lt_succ below, ?_⟩
        rw [← shift]
        exact refusedLater
    · rw [Nat.add_zero] at failed
      rw [failed]
      exact .inr ⟨⟨e, rfl⟩, 0, Nat.succ_pos _, refusedHere⟩

variable {g : Grammar}

/-- The actions for the terminal of a column that a state calls for. -/
def cellCalls (g : Grammar) (k column : Nat) : List Action := callsIn g.terminals (stateCalls g k) column

/-- The items of a closure are of productions of the grammar. -/
theorem production_lt_of_mem_closure {n : Numbered} {sets : Array SymbolSet} {kernel : List (Item × SymbolSet)}
    {pair : Item × SymbolSet} (member : pair ∈ n.closure sets kernel) :
    pair.1.production < n.productions.size := by
  obtain ⟨k, inside, member⟩ := List.mem_flatMap.mp member
  rw [List.mem_range] at inside
  dsimp only at member
  have own : ∀ pair ∈ kernel.filter (·.1.production == k), pair.1.production < n.productions.size := by
    intro pair inOwn
    have same : pair.1.production = k := by simpa using (List.mem_filter.mp inOwn).2
    rw [same]
    exact inside
  split at member
  · exact own pair member
  · split at member
    · split at member
      · rename_i shape _ _
        rcases List.mem_cons.mp member with rfl | later
        · exact inside
        · exact own pair (by rw [shape]; exact List.mem_cons_of_mem _ later)
      · rcases List.mem_cons.mp member with rfl | later
        · exact inside
        · exact own pair later
    · exact own pair member

/-- The productions that a state calls for are there. -/
theorem known_stateCalls (g : Grammar) (k : Nat) :
    ∀ call ∈ stateCalls g k, Known g.productions.toArray call.2 := by
  rintro ⟨s, act⟩ member p rfl
  obtain ⟨⟨item, lookaheads⟩, inClosure, called⟩ := List.mem_flatMap.mp member
  rcases mem_actionsOf.mp called with ⟨_, _, _, _, _, _, same⟩ | ⟨_, _, _, same⟩ | ⟨_, _, _, _, same⟩
  · exact absurd same (by simp)
  · exact absurd same (by simp)
  · rw [Action.reduce.inj same]
    have below := production_lt_of_mem_closure inClosure
    simpa [numbers, Numbered.ofGrammar] using below

/-- A row before any action is entered. -/
theorem ready_empty (productions : Array Production) (terminals : List String) (conflicts : List Conflict) :
    Ready productions terminals ⟨Array.replicate terminals.length none, conflicts⟩ := by
  refine ⟨Array.size_replicate, fun column act holds => ?_⟩
  rw [getD_replicate_none] at holds
  exact absurd holds (by simp)

/-- **The row of a state** is made exactly if every cell can be settled. -/
theorem rowOf_cases (g : Grammar) (k : Nat) (conflicts : List Conflict) :
    (∃ after, rowOf g.tableSource k (kernelLookaheads g.numbers g.automaton k) conflicts = .ok after ∧
        (∀ column, settle none (cellCalls g k column) =
          some (after.row.getD column none, clashes none (cellCalls g k column))) ∧
        after.conflicts.length = conflicts.length +
          ∑ column ∈ Finset.range g.terminals.length, clashes none (cellCalls g k column)) ∨
      (∃ e, rowOf g.tableSource k (kernelLookaheads g.numbers g.automaton k) conflicts = .error e) ∧
        ∃ column, settle none (cellCalls g k column) = none := by
  have cases := foldlM_cases k (ready_empty g.productions.toArray g.terminals conflicts)
    (known_stateCalls g k)
  simp only [getD_replicate_none] at cases
  rcases cases with ⟨after, made, fills⟩ | failed
  · have cells := fills.cells
    have count := fills.count
    simp only [getD_replicate_none] at cells count
    exact .inl ⟨after, made, cells, count⟩
  · exact .inr failed

/-- The kernels with look-aheads that the rows are made from. -/
theorem lookaheads_toList_getElem? {k : Nat} {kernel : List (Item × SymbolSet)} :
    (Grammar.lookaheads g.numbers g.automaton).toList[k]? = some kernel ↔
      k < g.automaton.kernels.size ∧ kernel = kernelLookaheads g.numbers g.automaton k := by
  rw [lookaheads_eq, List.getElem?_map, Option.map_eq_some_iff]
  constructor
  · rintro ⟨j, inRange, rfl⟩
    obtain ⟨inside, rfl⟩ := List.getElem?_eq_some_iff.mp inRange
    rw [List.getElem_range]
    rw [List.length_range] at inside
    exact ⟨inside, rfl⟩
  · rintro ⟨inside, rfl⟩
    exact ⟨k, List.getElem?_range inside, rfl⟩

/-- The cells of a table are settled. -/
theorem Made.cells {t : Table} (made : Made g t) {k : Nat} {kernel : List Item}
    (atState : g.automaton.kernels[k]? = some kernel) : ∃ row, t.action[k]? = some row ∧ ∀ column,
      settle none (cellCalls g k column) = some (row.getD column none, clashes none (cellCalls g k column)) := by
  obtain ⟨_, _, _, new⟩ := rowsOf_spec made.rows rfl
  have inside := (Array.getElem?_eq_some_iff.mp atState).1
  obtain ⟨before, after, entered, atRow, _⟩ := new k _ (lookaheads_toList_getElem?.mpr ⟨inside, rfl⟩)
  rw [Nat.zero_add] at entered atRow
  rcases rowOf_cases g k before with ⟨_, made', cells, _⟩ | ⟨⟨e, failed⟩, _⟩
  · obtain rfl := Except.ok.inj (made'.symm.trans entered)
    exact ⟨_, atRow, cells⟩
  · exact absurd (failed.symm.trans entered) (by simp)

/-- A grammar whose rows cannot be made is refused. -/
theorem exists_error_of_rows {e : GrammarError}
    (failed : rowsOf g.tableSource 0 #[] [] (Grammar.lookaheads g.numbers g.automaton).toList = .error e) :
    ∃ e, Table.of g = .error e := by
  unfold tableSource at failed
  unfold Table.of
  split
  · exact ⟨_, rfl⟩
  · dsimp only
    rw [failed]
    exact ⟨_, rfl⟩

/-- A grammar without a production for its start symbol is refused. -/
theorem exists_error_of_absent (absent : g.start ∉ g.nonterminals) : ∃ e, Table.of g = .error e := by
  unfold Table.of
  rw [if_pos (by simpa using absent)]
  exact ⟨_, rfl⟩

/-- **A grammar has a table exactly if every cell of every state can be settled.** -/
theorem of_cases (present : g.start ∈ g.nonterminals) :
    (∃ t, Table.of g = .ok t ∧ t.conflicts.length = ∑ k ∈ Finset.range g.automaton.kernels.size,
        ∑ column ∈ Finset.range g.terminals.length, clashes none (cellCalls g k column)) ∨
      (∃ e, Table.of g = .error e) ∧ ∃ k < g.automaton.kernels.size, ∃ column,
        settle none (cellCalls g k column) = none := by
  have size_eq : (Grammar.lookaheads g.numbers g.automaton).toList.length = g.automaton.kernels.size := by
    simp [lookaheads_eq]
  have cases := rowsOf_cases (fun k => ∃ column, settle none (cellCalls g k column) = none)
    (fun k => ∑ column ∈ Finset.range g.terminals.length, clashes none (cellCalls g k column)) 0
    (fun k kernel (found : (Grammar.lookaheads g.numbers g.automaton).toList[k]? = some kernel) conflicts => by
      obtain ⟨_, rfl⟩ := lookaheads_toList_getElem?.mp found
      rw [Nat.zero_add]
      exact (rowOf_cases g k conflicts).imp_left fun ⟨after, made, _, counted⟩ => ⟨after, made, counted⟩) #[] []
  simp only [size_eq, Nat.zero_add, List.length_nil] at cases
  rcases cases with ⟨rows, conflicts, made, counted⟩ | ⟨⟨e, failed⟩, refused⟩
  · obtain ⟨t, built, rfl⟩ := exists_table_of_rows present made
    exact .inl ⟨t, built, counted⟩
  · exact .inr ⟨exists_error_of_rows failed, refused⟩

/-! ### What the table says -/

/-- The actions for a terminal that a state calls for. -/
theorem mem_cellCalls (plain : g.Unreserved) {k column : Nat} {s : String}
    (found : columnIn g.terminals s = some column) {act : Action} :
    act ∈ cellCalls g k column ↔ g.Calls k s act := by
  unfold cellCalls callsIn
  rw [List.mem_filterMap, ← mem_stateCalls plain]
  constructor
  · rintro ⟨⟨other, act'⟩, member, same⟩
    split at same
    · rename_i here
      obtain rfl := columnIn_inj here found
      rw [← Option.some.inj same]
      exact member
    · exact absurd same (by simp)
  · exact fun member => ⟨(s, act), member, if_pos found⟩

/-- A cell that an action is called for is that of some terminal. -/
theorem exists_terminal_of_mem_cellCalls {k column : Nat} {act : Action} (member : act ∈ cellCalls g k column) :
    ∃ s, columnIn g.terminals s = some column := by
  obtain ⟨⟨s, _⟩, _, same⟩ := List.mem_filterMap.mp member
  split at same
  · exact ⟨s, by assumption⟩
  · exact absurd same (by simp)

/-- A production that is called for is there. -/
theorem exists_production_of_calls {k p : Nat} {s : String} (calls : g.Calls k s (.reduce p)) :
    ∃ production, g.productions[p]? = some production := by
  generalize called : Action.reduce p = act at calls
  cases calls with
  | shift => exact absurd called (by simp)
  | accept => exact absurd called (by simp)
  | @reduce item _ _ member =>
    obtain rfl := Action.reduce.inj called
    have below := production_lt_of_mem_closure member
    exact ⟨_, List.getElem?_eq_getElem (by simpa [numbers, Numbered.ofGrammar] using below)⟩

/-- **The action of a table** is the one that prevails among those that the state calls for. -/
theorem Made.action?_iff {t : Table} (made : Made g t) (plain : g.Unreserved) {k : Nat} {kernel : List Item}
    (atState : g.automaton.kernels[k]? = some kernel) {s : String} {act : Action} :
    t.action? k s = some act ↔
      g.Calls k s act ∧ (act.Reads ∨ ∀ other, g.Calls k s other → ¬ other.Reads) := by
  by_cases isTerminal : s ∈ g.terminals
  · obtain ⟨column, found⟩ := exists_columnIn isTerminal
    obtain ⟨row, atRow, cells⟩ := made.cells atState
    unfold action?
    rw [made.terminals_eq, found, atRow]
    dsimp only
    rw [settle_eq_some (cells column) act]
    unfold Prevails
    simp only [Option.toList_none, List.nil_append, mem_cellCalls plain found]
  · constructor
    · intro acts
      exact absurd (mem_terminals_of_calls (made.calls_of_action? plain acts).2) isTerminal
    · rintro ⟨calls, _⟩
      exact absurd (mem_terminals_of_calls calls) isTerminal

end Table

end XPathAnnotator.Grammar
