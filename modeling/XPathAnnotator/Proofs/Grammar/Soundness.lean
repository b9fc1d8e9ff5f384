/-
**Parsing is sound.**

The stack of a parser is a path of the item automaton from the first state, with a derivation tree for each
symbol on the path whose value is on the stack (`Stacked`); the tokens of these trees are the tokens read.

* `Stacked.item` — the symbols before the dot of an item of the top state are on top of the stack;
* `Stacked.moves` — what a step can do: it reads a token, applies a production backwards, or ends the run;
* `Parses.step` — every step keeps the invariant;
* `parse_sound` — no step pops too much or finds no state to go to, and an accepted value is the fold of a
  derivation tree of the tokens.
-/

import Mathlib
import XPathAnnotator.Proofs.Grammar.Cells
import XPathAnnotator.Proofs.Grammar.Derivation
import XPathAnnotator.Proofs.Grammar.Runs

namespace XPathAnnotator.Grammar

open Automaton (Explored)

variable {g : Grammar} {α ε : Type} {semantics : Semantics α ε}

/-! ### Items of a state by name -/

theorem explored_automaton (plain : g.Unreserved) : Explored g.numbers g.automaton :=
  Automaton.explored_of (ofGrammar_proper plain)

theorem numbers_productions {p : Nat} {production : Production} (found : g.productions[p]? = some production) :
    g.numbers.productions[p]? = some (g.numbered production) := by
  rw [ofGrammar_productions, found, Option.map_some]

theorem exists_production {p : Nat} {production : NumberedProduction}
    (found : g.numbers.productions[p]? = some production) :
    ∃ named, g.productions[p]? = some named ∧ production = g.numbered named := by
  rw [ofGrammar_productions] at found
  obtain ⟨named, atP, rfl⟩ := Option.map_eq_some_iff.mp found
  exact ⟨named, atP, rfl⟩

/-- Items of states are valid. -/
theorem valid_of_mem_itemsOf (plain : g.Unreserved) {k : Nat} {kernel : List Item}
    (atState : g.automaton.kernels[k]? = some kernel) {item : Item}
    (member : item ∈ g.numbers.itemsOf kernel) : g.numbers.ValidItem item := by
  rcases Numbered.mem_itemsOf.mp member with inKernel | ⟨atStart, p, found, _⟩
  · exact ((explored_automaton plain).good_of atState).valid item inKernel
  · exact ⟨p, found, by rw [atStart]; exact Nat.zero_le _⟩

theorem mem_itemsOf_of_mem_closureAt (plain : g.Unreserved) {k : Nat} {kernel : List Item}
    (atState : g.automaton.kernels[k]? = some kernel) {pair : Item × SymbolSet}
    (member : pair ∈ g.closureAt k) : pair.1 ∈ g.numbers.itemsOf kernel := by
  have proper := ofGrammar_proper plain
  have inItems := Numbered.mem_itemsOf_of_mem_closure proper
    (fit_kernelLookaheads proper (explored_automaton plain) atState) member
  rw [map_fst_kernelLookaheads atState] at inItems
  exact inItems

/-- The symbol after a dot by name. -/
theorem right_getElem?_of_next {item : Item} {s : String} (inSymbols : s ∈ g.symbols)
    (next : g.numbers.nextSymbol? item = some (g.code s)) {production : Production}
    (found : g.productions[item.production]? = some production) :
    production.right[item.dot]? = some s := by
  obtain ⟨p, found', atDot⟩ := Numbered.nextSymbol?_eq_some.mp next
  obtain rfl := Option.some.inj ((numbers_productions found).symm.trans found')
  obtain ⟨other, atOther, same⟩ := Option.map_eq_some_iff.mp
    (show production.right[item.dot]?.map g.code = some (g.code s) by rw [← List.getElem?_map]; exact atDot)
  rw [atOther, code_inj inSymbols same.symm]

/-- The symbol after a dot, read by number. -/
theorem nextSymbol?_of_drop {p d : Nat} {production : Production}
    (found : g.productions[p]? = some production) {s : String} {symbols : List String}
    (shape : production.right.drop d = s :: symbols) :
    g.numbers.nextSymbol? ⟨p, d⟩ = some (g.code s) := by
  refine Numbered.nextSymbol?_eq_some.mpr ⟨_, numbers_productions found, ?_⟩
  have head := congrArg List.head? shape
  rw [List.head?_drop] at head
  show (production.right.map g.code)[d]? = some (g.code s)
  rw [List.getElem?_map, head]
  rfl

/-- The symbols after the next one, read by number. -/
theorem restAfterNext_of_drop {p d : Nat} {production : Production}
    (found : g.productions[p]? = some production) {s : String} {symbols : List String}
    (shape : production.right.drop d = s :: symbols) :
    g.numbers.restAfterNext ⟨p, d⟩ = symbols.map g.code := by
  rw [Numbered.restAfterNext_eq (numbers_productions found)]
  have dropped := congrArg (List.drop 1) shape
  rw [List.drop_drop] at dropped
  rw [Grammar.numbered, ← List.map_drop, dropped]
  rfl

/-- The symbols from a dot on by name. -/
theorem drop_of_next {item : Item} {s : String} (inSymbols : s ∈ g.symbols)
    (next : g.numbers.nextSymbol? item = some (g.code s)) {production : Production}
    (found : g.productions[item.production]? = some production) :
    production.right.drop item.dot = s :: production.right.drop (item.dot + 1) := by
  obtain ⟨inside, rfl⟩ := List.getElem?_eq_some_iff.mp (right_getElem?_of_next inSymbols next found)
  exact List.drop_eq_getElem_cons inside

/-- An item with its dot at the end. -/
theorem dot_eq_of_next_eq_none (plain : g.Unreserved) {k : Nat} {kernel : List Item}
    (atState : g.automaton.kernels[k]? = some kernel) {item : Item}
    (member : item ∈ g.numbers.itemsOf kernel) (ends : g.numbers.nextSymbol? item = none) :
    ∃ production, g.productions[item.production]? = some production ∧
      item.dot = production.right.length := by
  obtain ⟨p, found, atEnd⟩ := (valid_of_mem_itemsOf plain atState member).nextSymbol?_eq_none ends
  obtain ⟨named, atP, rfl⟩ := exists_production found
  refine ⟨named, atP, ?_⟩
  rw [atEnd]
  exact List.length_map _

/-- **A production is called for at its end**, before the terminals that are expected there. -/
theorem Calls.exists_end (plain : g.Unreserved) {k : Nat} {kernel : List Item}
    (atState : g.automaton.kernels[k]? = some kernel) {s : String} {p : Nat} (calls : g.Calls k s (.reduce p)) :
    ∃ production lookaheads, g.productions[p]? = some production ∧ p ≠ 0 ∧ s ∈ g.terminals ∧
      (⟨p, production.right.length⟩, lookaheads) ∈ g.closureAt k ∧ g.code s ∈ lookaheads := by
  generalize called : Action.reduce p = act at calls
  cases calls with
  | shift => exact absurd called (by simp)
  | accept => exact absurd called (by simp)
  | @reduce item lookaheads _ inClosure ends explicit isTerminal expected =>
    obtain rfl := Action.reduce.inj called
    have member : item ∈ g.numbers.itemsOf kernel := mem_itemsOf_of_mem_closureAt plain atState inClosure
    obtain ⟨production, found, atEnd⟩ := dot_eq_of_next_eq_none plain atState member ends
    refine ⟨production, lookaheads, found, explicit, isTerminal, ?_, expected⟩
    rw [← atEnd]
    exact inClosure

/-- What a kernel reaches is next in some item of its state. -/
theorem Numbered.Reaches.exists_item {n : Numbered} {kernel : List Item} {b : Nat}
    (reaches : n.Reaches kernel b) : ∃ item ∈ n.itemsOf kernel, n.nextSymbol? item = some b := by
  cases reaches with
  | kernel member next _ => exact ⟨_, Numbered.mem_itemsOf.mpr (Or.inl member), next⟩
  | @production k p _ found left head _ =>
    refine ⟨⟨k, 0⟩, Numbered.mem_itemsOf.mpr (Or.inr ⟨rfl, p, found, left⟩), ?_⟩
    exact Numbered.nextSymbol?_eq_some.mpr ⟨p, found, by rw [← List.head?_eq_getElem?, head]⟩

/-- Where a production starts its left side can be read. -/
theorem exists_target_of_start (plain : g.Unreserved) {k p : Nat} {kernel : List Item}
    (atState : g.automaton.kernels[k]? = some kernel) (member : ⟨p, 0⟩ ∈ g.numbers.itemsOf kernel)
    (explicit : p ≠ 0) {production : Production} (found : g.productions[p]? = some production) :
    ∃ j, g.automaton.target? k (g.code production.left) = some j := by
  have explored := explored_automaton plain
  rcases Numbered.mem_itemsOf.mp member with inKernel | ⟨_, p', found', reaches⟩
  · exact absurd (explored.production_eq_zero atState inKernel rfl) explicit
  · obtain rfl := Option.some.inj ((numbers_productions found).symm.trans found')
    obtain ⟨item, inItems, next⟩ := reaches.exists_item
    obtain ⟨j, target, _⟩ := explored.target_of_next (ofGrammar_proper plain) atState inItems next
    exact ⟨j, target⟩

/-! ### Stacks -/

open Table (top)

/-- A stack as a path of the automaton, with the symbols on the path and a derivation tree of each; the
latest first. -/
inductive Stacked (g : Grammar) (semantics : Semantics α ε) :
    List (Nat × α) → List String → List Tree → Prop
  | nil : Stacked g semantics [] [] []
  | cons {stack : List (Nat × α)} {symbols : List String} {trees : List Tree} {s : String} {tree : Tree}
      {value : α} {k : Nat} :
      Stacked g semantics stack symbols trees → s ∈ g.symbols →
        g.automaton.target? (top stack) (g.code s) = some k → g.Derives s tree →
          tree.fold semantics = .ok value → Stacked g semantics ((k, value) :: stack) (s :: symbols) (tree :: trees)

namespace Stacked

variable {stack : List (Nat × α)} {symbols : List String} {trees : List Tree}

theorem length_symbols (stacked : g.Stacked semantics stack symbols trees) :
    symbols.length = stack.length := by
  induction stacked with
  | nil => rfl
  | cons _ _ _ _ _ ih => simp [ih]

theorem drop (stacked : g.Stacked semantics stack symbols trees) (n : Nat) :
    g.Stacked semantics (stack.drop n) (symbols.drop n) (trees.drop n) := by
  induction stacked generalizing n with
  | nil => simpa using Stacked.nil
  | cons below inSymbols target derives folds ih =>
    cases n with
    | zero => exact below.cons inSymbols target derives folds
    | succ n => exact ih n

theorem derives (stacked : g.Stacked semantics stack symbols trees) :
    List.Forall₂ g.Derives symbols trees := by
  induction stacked with
  | nil => exact .nil
  | cons _ _ _ derives _ ih => exact .cons derives ih

theorem folds (stacked : g.Stacked semantics stack symbols trees) :
    List.Forall₂ (fun tree value => tree.fold semantics = .ok value) trees (stack.map (·.2)) := by
  induction stacked with
  | nil => exact .nil
  | cons _ _ _ _ folds ih => exact .cons folds ih

/-- Only the empty stack is in the first state. -/
theorem symbols_eq_nil (plain : g.Unreserved) (stacked : g.Stacked semantics stack symbols trees)
    (isFirst : top stack = 0) : symbols = [] := by
  cases stacked with
  | nil => rfl
  | @cons _ _ _ _ _ _ k _ _ target _ _ =>
    obtain rfl : k = 0 := isFirst
    exact absurd target (explored_automaton plain).target_ne_zero

/-- **The symbols before the dot of an item of the top state are on top of the stack**, and below them the
production starts. -/
theorem item (plain : g.Unreserved) (stacked : g.Stacked semantics stack symbols trees) {kernel : List Item}
    (atState : g.automaton.kernels[top stack]? = some kernel) {item : Item}
    (member : item ∈ g.numbers.itemsOf kernel) {production : Production}
    (found : g.productions[item.production]? = some production) :
    item.dot ≤ stack.length ∧ symbols.take item.dot = (production.right.take item.dot).reverse ∧
      ∃ below, g.automaton.kernels[top (stack.drop item.dot)]? = some below ∧
        ⟨item.production, 0⟩ ∈ g.numbers.itemsOf below := by
  have explored := explored_automaton plain
  induction stacked generalizing kernel item with
  | nil =>
    have atStart : item.dot = 0 := by
      obtain rfl := Option.some.inj (explored.start.symm.trans atState)
      rcases Numbered.mem_itemsOf.mp member with inKernel | ⟨atStart, _⟩
      · rw [List.mem_singleton.mp inKernel]
      · exact atStart
    refine ⟨by simp [atStart], by simp [atStart], kernel, by simpa using atState, ?_⟩
    rw [← atStart]
    exact member
  | @cons stack symbols trees s tree value k below inSymbols target derives folds ih =>
    rcases Nat.eq_zero_or_pos item.dot with atStart | moved
    · refine ⟨by simp [atStart], by simp [atStart], kernel, by rw [atStart]; exact atState, ?_⟩
      rw [← atStart]
      exact member
    · have inKernel : item ∈ kernel := by
        refine (Numbered.mem_itemsOf.mp member).resolve_right fun started => ?_
        have := started.1
        omega
      obtain ⟨before, atBefore, _⟩ := explored.target target
      obtain ⟨origin, inBefore, next, rfl⟩ := (explored.mem_target_iff atBefore target atState).mp inKernel
      obtain ⟨short, matched, rest⟩ := ih atBefore inBefore found
      have atDot := right_getElem?_of_next inSymbols next found
      refine ⟨Nat.succ_le_succ short, ?_, rest⟩
      show s :: symbols.take origin.dot = (production.right.take (origin.dot + 1)).reverse
      rw [List.take_add_one, atDot, matched]
      simp

end Stacked

/-! ### What the table says -/

variable {t : Table}

/-- Where the table reads a terminal, it is not the end mark and its transition leads on. -/
theorem shift_spec (made : Table.Made g t) (plain : g.Unreserved) {k j : Nat} {s : String}
    (acts : t.action? k s = some (.shift j)) :
    s ∈ g.terminals ∧ s ≠ endSymbol ∧ g.automaton.target? k (g.code s) = some j := by
  obtain ⟨_, calls⟩ := made.calls_of_action? plain acts
  cases calls with
  | shift _ next isTerminal target =>
    refine ⟨isTerminal, ?_, target⟩
    rintro rfl
    obtain ⟨p, found, atDot⟩ := Numbered.nextSymbol?_eq_some.mp next
    exact (ofGrammar_proper plain).right_ne_end found _ (List.mem_of_getElem? atDot) rfl

/-- Where the table applies a production backwards, its right side is on top of the stack and its left side
can be read below. -/
theorem Stacked.reduce_spec (made : Table.Made g t) (plain : g.Unreserved) {stack : List (Nat × α)}
    {symbols : List String} {trees : List Tree} (stacked : g.Stacked semantics stack symbols trees)
    {s : String} {p : Nat} (acts : t.action? (top stack) s = some (.reduce p)) :
    ∃ production j, g.productions[p]? = some production ∧ production.right.length ≤ stack.length ∧
      symbols.take production.right.length = production.right.reverse ∧
        g.automaton.target? (top (stack.drop production.right.length)) (g.code production.left) = some j ∧
          t.goto? (top (stack.drop production.right.length)) production.left = some j := by
  obtain ⟨⟨kernel, atState⟩, calls⟩ := made.calls_of_action? plain acts
  obtain ⟨production, lookaheads, found, explicit, -, inClosure, -⟩ := calls.exists_end plain atState
  have member := mem_itemsOf_of_mem_closureAt plain atState inClosure
  obtain ⟨short, matched, below, atBelow, starts⟩ := stacked.item plain atState member found
  rw [List.take_length] at matched
  obtain ⟨j, target⟩ := exists_target_of_start plain atBelow starts explicit found
  refine ⟨production, j, found, short, matched, target, ?_⟩
  rw [made.goto?_eq atBelow (left_mem_nonterminals (List.mem_of_getElem? found)), target]

/-- Where the table accepts, the input is at its end and the stack holds the start symbol alone. -/
theorem Stacked.accept_spec (made : Table.Made g t) (plain : g.Unreserved) {stack : List (Nat × α)}
    {symbols : List String} {trees : List Tree} (stacked : g.Stacked semantics stack symbols trees)
    {s : String} (acts : t.action? (top stack) s = some .accept) :
    s = endSymbol ∧ symbols = [g.start] := by
  have explored := explored_automaton plain
  obtain ⟨⟨kernel, atState⟩, calls⟩ := made.calls_of_action? plain acts
  cases calls with
  | @accept item lookaheads inClosure ends implicit =>
    have member := mem_itemsOf_of_mem_closureAt plain atState inClosure
    obtain ⟨production, found, atEnd⟩ := dot_eq_of_next_eq_none plain atState member ends
    obtain ⟨short, matched, below, atBelow, starts⟩ := stacked.item plain atState member found
    have first : production = g.acceptProduction := by
      rw [implicit] at found
      exact (Option.some.inj found).symm
    have one : production.right = [g.start] := by rw [first]; rfl
    rw [atEnd, one] at short matched atBelow
    rw [implicit] at starts
    have inBelow : (⟨0, 0⟩ : Item) ∈ below := by
      refine (Numbered.mem_itemsOf.mp starts).resolve_right ?_
      rintro ⟨_, p, found', reaches⟩
      obtain ⟨start, implicit⟩ := (ofGrammar_proper plain).implicit
      obtain rfl := Option.some.inj (implicit.symm.trans found')
      exact reaches.ne_zero (ofGrammar_proper plain) rfl
    have isFirst := explored.eq_zero_of_dot_eq_zero atBelow inBelow rfl
    have rest : symbols.drop 1 = [] := (stacked.drop 1).symbols_eq_nil plain isFirst
    refine ⟨rfl, ?_⟩
    rw [← List.take_append_drop 1 symbols, rest, List.append_nil]
    exact matched

/-- What a step makes of a stack with symbols read and of the next token: the token is read, a production is applied
backwards, or the run ends. -/
inductive Moves (g : Grammar) (t : Table) (semantics : Semantics α ε) (stack : List (Nat × α)) (symbols : List String)
    (token : Token) (tail : List Token) : StepResult α ε → Prop
  | unexpected : Moves g t semantics stack symbols token tail (.failed (.unexpected token))
  | shifted {j : Nat} : token.kind ∈ g.terminals → token.kind ≠ endSymbol →
      g.automaton.target? (top stack) (g.code token.kind) = some j →
        Moves g t semantics stack symbols token tail (.next ⟨(j, semantics.leaf token) :: stack, tail⟩)
  | reduced {p j : Nat} {production : Production} {value : α} :
      t.action? (top stack) token.kind = some (.reduce p) → g.productions[p]? = some production →
        production.right.length ≤ stack.length → symbols.take production.right.length = production.right.reverse →
        g.automaton.target? (top (stack.drop production.right.length)) (g.code production.left) = some j →
        semantics.node p ((stack.take production.right.length).map (·.2)).reverse = .ok value →
          Moves g t semantics stack symbols token tail
            (.next ⟨(j, value) :: stack.drop production.right.length, token :: tail⟩)
  | refused {p : Nat} {production : Production} {reason : ε} : g.productions[p]? = some production →
      symbols.take production.right.length = production.right.reverse →
        semantics.node p ((stack.take production.right.length).map (·.2)).reverse = .error reason →
          Moves g t semantics stack symbols token tail (.failed (.refused reason))
  | accepted {entry : Nat × α} {below : List (Nat × α)} : token.kind = endSymbol → symbols = [g.start] →
      stack = entry :: below → Moves g t semantics stack symbols token tail (.accepted entry.2)

/-- **Every step is one of these.** -/
theorem Stacked.moves (made : Table.Made g t) (plain : g.Unreserved) {stack : List (Nat × α)} {symbols : List String}
    {trees : List Tree} (stacked : g.Stacked semantics stack symbols trees) (token : Token) (tail : List Token) :
    g.Moves t semantics stack symbols token tail (t.step semantics ⟨stack, token :: tail⟩) := by
  rw [Table.step_eq]
  split
  · exact .unexpected
  · rename_i j acts
    obtain ⟨isTerminal, notEnd, target⟩ := shift_spec made plain acts
    exact .shifted isTerminal notEnd target
  · rename_i p acts
    obtain ⟨production, j, found, short, matched, target, goto⟩ := stacked.reduce_spec made plain acts
    rw [Table.reduce_eq (made.getElem?_productions found), goto]
    split
    · rename_i refused
      exact .refused found matched refused
    · rename_i made
      exact .reduced acts found short matched target made
  · rename_i acts
    obtain ⟨isEnd, same⟩ := stacked.accept_spec made plain acts
    cases stack with
    | nil =>
      have lengths := stacked.length_symbols
      rw [same] at lengths
      exact absurd lengths (by simp)
    | cons entry below => exact .accepted isEnd same rfl

/-! ### The invariant -/

/-- A parser at work on a text and its end mark: the trees on the stack are the text read, and the rest of
the text and the end mark are left. -/
structure Parses (g : Grammar) (semantics : Semantics α ε) (body : List Token) (e : Token)
    (c : Configuration α) (symbols : List String) (trees : List Tree) (rest : List Token) : Prop where
  stacked : g.Stacked semantics c.stack symbols trees
  consumed : Tree.yieldAll trees.reverse ++ rest = body
  tokens_eq : c.tokens = rest ++ [e]

theorem Parses.start (g : Grammar) (semantics : Semantics α ε) (body : List Token) (e : Token) :
    g.Parses semantics body e ⟨[], body ++ [e]⟩ [] [] body :=
  ⟨.nil, rfl, rfl⟩

/-- The trees on top of a stack make a tree of a production whose right side is there. -/
theorem Stacked.node {stack : List (Nat × α)} {symbols : List String} {trees : List Tree}
    (stacked : g.Stacked semantics stack symbols trees) {p : Nat} {production : Production}
    (found : g.productions[p]? = some production)
    (matched : symbols.take production.right.length = production.right.reverse) :
    g.Derives production.left (.node p (trees.take production.right.length).reverse) ∧
      Tree.foldAll semantics (trees.take production.right.length).reverse =
        .ok ((stack.take production.right.length).map (·.2)).reverse := by
  constructor
  · refine .node found (derivesAll_iff.mpr ?_)
    have derives := List.forall₂_take production.right.length stacked.derives
    rw [matched] at derives
    rw [← List.forall₂_reverse_iff, List.reverse_reverse]
    exact derives
  · rw [Tree.foldAll_eq_ok, List.forall₂_reverse_iff, List.map_take]
    exact List.forall₂_take _ stacked.folds

/-- The stack after a production was applied backwards to it. -/
theorem Stacked.reduce {stack : List (Nat × α)} {symbols : List String} {trees : List Tree}
    (stacked : g.Stacked semantics stack symbols trees) {p : Nat} {production : Production}
    (found : g.productions[p]? = some production)
    (matched : symbols.take production.right.length = production.right.reverse) {j : Nat}
    (target : g.automaton.target? (top (stack.drop production.right.length)) (g.code production.left) = some j)
    {value : α}
    (made : semantics.node p ((stack.take production.right.length).map (·.2)).reverse = .ok value) :
    g.Stacked semantics ((j, value) :: stack.drop production.right.length)
      (production.left :: symbols.drop production.right.length)
      (.node p (trees.take production.right.length).reverse :: trees.drop production.right.length) := by
  obtain ⟨derives, folded⟩ := stacked.node found matched
  have inSymbols : production.left ∈ g.symbols :=
    mem_symbols.mpr (Or.inl (left_mem_nonterminals (List.mem_of_getElem? found)))
  refine (stacked.drop production.right.length).cons inSymbols target derives ?_
  rw [Tree.fold, folded]
  exact made

/-- **Every step keeps the invariant.** -/
theorem Parses.step (made : Table.Made g t) (plain : g.Unreserved) {body : List Token} {e : Token}
    (ends : e.kind = endSymbol) {c d : Configuration α} {symbols : List String} {trees : List Tree}
    {rest : List Token} (parses : g.Parses semantics body e c symbols trees rest)
    (stepped : t.step semantics c = .next d) :
    ∃ symbols' trees' rest', g.Parses semantics body e d symbols' trees' rest' := by
  obtain ⟨stack, tokens⟩ := c
  obtain ⟨stacked, consumed, rfl⟩ := parses
  obtain ⟨token, tail, shape⟩ := List.exists_cons_of_ne_nil (List.append_ne_nil_of_right_ne_nil rest
    (List.cons_ne_nil e []))
  dsimp only at stacked shape
  have moves := stacked.moves made plain token tail
  rw [← shape, stepped] at moves
  cases moves with
  | shifted isTerminal notEnd target =>
    have notLeft := plain.unmarked.not_nonterminal_of_mem_terminals isTerminal
    have next := stacked.cons (mem_symbols.mpr (Or.inr isTerminal)) target (.leaf notLeft) rfl
    cases rest with
    | nil =>
      obtain ⟨rfl, _⟩ := List.cons.inj shape
      exact absurd ends notEnd
    | cons first rest =>
      obtain ⟨rfl, rfl⟩ := List.cons.inj shape
      refine ⟨_, _, rest, next, ?_, rfl⟩
      rw [← consumed, List.reverse_cons, Tree.yieldAll_append]
      simp [Tree.yieldAll, Tree.yield]
  | @reduced p j production value _ found _ matched target folded =>
    refine ⟨_, _, rest, stacked.reduce found matched target folded, ?_, shape.symm⟩
    rw [← consumed, List.reverse_cons, Tree.yieldAll_append]
    refine congrArg (· ++ rest) ?_
    calc Tree.yieldAll (trees.drop production.right.length).reverse ++
          Tree.yieldAll [.node p (trees.take production.right.length).reverse]
        = Tree.yieldAll ((trees.drop production.right.length).reverse ++
            (trees.take production.right.length).reverse) := by
          rw [Tree.yieldAll_append]
          simp [Tree.yieldAll, Tree.yield]
      _ = Tree.yieldAll trees.reverse := by
          rw [← List.reverse_append, List.take_append_drop]

/-! ### Soundness -/

/-- A configuration in which no step goes wrong: a token is left, a production is applied backwards only if
its right side is on the stack and there is a state to go to, and a value is there when the table accepts. -/
structure Healthy (t : Table) (c : Configuration α) : Prop where
  tokens_ne_nil : c.tokens ≠ []
  reduce : ∀ token ∈ c.tokens.head?, ∀ p, t.action? c.state token.kind = some (.reduce p) →
    ∃ production, t.productions[p]? = some production ∧ production.right.length ≤ c.stack.length ∧
      ∃ j, t.goto? (Configuration.state ⟨c.stack.drop production.right.length, c.tokens⟩)
        production.left = some j
  accept : ∀ token ∈ c.tokens.head?, t.action? c.state token.kind = some .accept → c.stack ≠ []

theorem Parses.healthy (made : Table.Made g t) (plain : g.Unreserved) {body : List Token} {e : Token}
    {c : Configuration α} {symbols : List String} {trees : List Tree} {rest : List Token}
    (parses : g.Parses semantics body e c symbols trees rest) : Healthy t c := by
  obtain ⟨stack, tokens⟩ := c
  obtain ⟨stacked, _, rfl⟩ := parses
  refine ⟨by simp, fun token _ p acts => ?_, fun token _ acts => ?_⟩
  · rw [Table.state_eq] at acts
    obtain ⟨production, j, found, short, _, _, goto⟩ := stacked.reduce_spec made plain acts
    refine ⟨production, made.getElem?_productions found, short, j, ?_⟩
    rw [Table.state_eq]
    exact goto
  · rw [Table.state_eq] at acts
    obtain ⟨_, rfl⟩ := stacked.accept_spec made plain acts
    intro empty
    have lengths := stacked.length_symbols
    dsimp only at lengths empty
    rw [empty] at lengths
    exact absurd lengths (by simp)

/-- An accepted value is the fold of a derivation tree of the text. -/
theorem Parses.accepted (made : Table.Made g t) (plain : g.Unreserved) {body : List Token} {e : Token}
    (only : ∀ token ∈ body, token.kind ≠ endSymbol) {c : Configuration α} {symbols : List String}
    {trees : List Tree} {rest : List Token} (parses : g.Parses semantics body e c symbols trees rest)
    {value : α} (stepped : t.step semantics c = .accepted value) :
    ∃ tree, g.Derives g.start tree ∧ tree.yield = body ∧ tree.fold semantics = .ok value := by
  obtain ⟨stack, tokens⟩ := c
  obtain ⟨stacked, consumed, rfl⟩ := parses
  obtain ⟨token, tail, shape⟩ := List.exists_cons_of_ne_nil (List.append_ne_nil_of_right_ne_nil rest
    (List.cons_ne_nil e []))
  dsimp only at stacked shape
  have moves := stacked.moves made plain token tail
  rw [← shape, stepped] at moves
  cases moves with
  | accepted isEnd same filled =>
    subst same
    cases stacked with
    | @cons _ _ _ _ tree _ _ below _ _ derives folds =>
      obtain ⟨rfl, -⟩ := List.cons.inj filled
      cases below with
      | nil =>
        have noRest : rest = [] := by
          cases rest with
          | nil => rfl
          | cons first rest =>
            obtain ⟨rfl, _⟩ := List.cons.inj shape
            refine absurd isEnd (only first ?_)
            rw [← consumed]
            simp
        refine ⟨tree, derives, ?_, folds⟩
        rw [← consumed, noRest]
        simp [Tree.yieldAll]

/-- The invariant holds along every run. -/
theorem exists_parses (made : Table.Made g t) (plain : g.Unreserved) {body : List Token} {e : Token}
    (ends : e.kind = endSymbol) {n : Nat} {c : Configuration α}
    (runs : t.Runs semantics n ⟨[], body ++ [e]⟩ c) :
    ∃ symbols trees rest, g.Parses semantics body e c symbols trees rest := by
  refine runs.induction (P := fun c => ∃ symbols trees rest, g.Parses semantics body e c symbols trees rest)
    ?_ ⟨[], [], body, .start g semantics body e⟩
  rintro c d ⟨symbols, trees, rest, parses⟩ stepped
  exact parses.step made plain ends stepped

theorem accepted_of_ends (made : Table.Made g t) (plain : g.Unreserved) {body : List Token} {e : Token}
    (ends : e.kind = endSymbol) (only : ∀ token ∈ body, token.kind ≠ endSymbol) {value : α}
    (accepts : t.Ends semantics ⟨[], body ++ [e]⟩ (.ok value)) :
    ∃ tree, g.Derives g.start tree ∧ tree.yield = body ∧ tree.fold semantics = .ok value := by
  obtain ⟨_, n, _, last, runs, finished⟩ := accepts
  obtain ⟨symbols, trees, rest, parses⟩ := exists_parses made plain ends runs
  exact parses.accepted made plain only (StepResult.outcome?_eq_some finished)

/-- **Parsing is sound.** For every table of a grammar without reserved names, with or without conflicts, and
every text followed by its only end mark: no configuration of the run pops more than its stack holds or lacks a
state to go to; and a value that is returned, after any number of steps or by the bounded parser, is the fold of
a derivation tree of the start symbol whose tokens are the text. -/
theorem parse_sound (plain : g.Unreserved) (built : Table.of g = .ok t) (leaf : Token → α) (absent : α)
    (action? : Nat → Option (List α → Except ε α)) {body : List Token} {e : Token}
    (ends : e.kind = endSymbol) (only : ∀ token ∈ body, token.kind ≠ endSymbol) :
    (∀ n c, t.Runs (.ofActions leaf absent action?) n ⟨[], body ++ [e]⟩ c → Healthy t c) ∧
      (∀ value, t.Ends (.ofActions leaf absent action?) ⟨[], body ++ [e]⟩ (.ok value) →
        ∃ tree, g.Derives g.start tree ∧ tree.yield = body ∧
          tree.fold (.ofActions leaf absent action?) = .ok value) ∧
      (∀ value, t.parse (.ofActions leaf absent action?) (body ++ [e]) = .ok value →
        t.Ends (.ofActions leaf absent action?) ⟨[], body ++ [e]⟩ (.ok value)) := by
  have made := Table.made_of built
  refine ⟨fun n c runs => ?_, fun value accepts => ?_, fun value parsed => ?_⟩
  · obtain ⟨symbols, trees, rest, parses⟩ := exists_parses made plain ends runs
    exact parses.healthy made plain
  · exact accepted_of_ends made plain ends only accepts
  · unfold Table.parse at parsed
    rw [← parsed]
    refine Table.ends_of_run ?_
    rw [parsed]
    simp

/-! ### Sums -/

deriving instance DecidableEq for NumberedProduction, Numbered, Automaton

/-- The grammar of sums of `x`. -/
def sumGrammar : Grammar :=
  ⟨"Sum", [⟨"Sum", ["Sum", "+", "x"], List.cons_ne_nil _ _⟩, ⟨"Sum", ["x"], List.cons_ne_nil _ _⟩]⟩

theorem unreserved_sumGrammar : sumGrammar.Unreserved :=
  ⟨by decide, by decide, by decide⟩

/-- What the table of sums is made from. -/
theorem tableSource_sumGrammar : sumGrammar.tableSource =
    { productions := sumGrammar.productions.toArray
      symbols := #["$accept", "Sum", "+", "x", "EOF"]
      terminals := ["+", "x", "EOF"]
      sorted := [("+", 2), ("EOF", 4), ("x", 3)]
      numbered := ⟨2, 5, #[⟨0, [1]⟩, ⟨1, [1, 2, 3]⟩, ⟨1, [3]⟩], ⟨28⟩, 4, 5⟩
      automaton :=
        ⟨#[[⟨0, 0⟩], [⟨0, 1⟩, ⟨1, 1⟩], [⟨2, 1⟩], [⟨1, 2⟩], [⟨1, 3⟩]],
          #[[(1, 1), (3, 2)], [(2, 3)], [], [(3, 4)], []]⟩
      first := #[⟨8⟩, ⟨8⟩, ⟨4⟩, ⟨8⟩, ⟨16⟩] } :=
  tableSource_eq rfl (by decide +kernel) (by decide +kernel) (by cbv) (by decide +kernel) (by decide +kernel)
    (by decide +kernel)

/-- The look-aheads of the kernels of sums. -/
theorem lookaheads_sumGrammar :
    Grammar.lookaheads sumGrammar.tableSource.numbered sumGrammar.tableSource.automaton =
      #[[(⟨0, 0⟩, ⟨16⟩)], [(⟨0, 1⟩, ⟨16⟩), (⟨1, 1⟩, ⟨20⟩)], [(⟨2, 1⟩, ⟨20⟩)], [(⟨1, 2⟩, ⟨20⟩)],
        [(⟨1, 3⟩, ⟨20⟩)]] := by
  rw [tableSource_sumGrammar]
  decide +kernel

theorem exists_table_sumGrammar : ∃ t, Table.of sumGrammar = .ok t ∧ t.conflicts = [] := by
  have rows : ∃ rows, Table.rowsOf sumGrammar.tableSource 0 #[] []
      (Grammar.lookaheads sumGrammar.tableSource.numbered sumGrammar.tableSource.automaton).toList =
        .ok (rows, []) := by
    rw [lookaheads_sumGrammar, tableSource_sumGrammar]
    exact ⟨_, rfl⟩
  obtain ⟨rows, made⟩ := rows
  exact Table.exists_table_of_rows (by decide) made

/-- Sums in brackets: an action for the first rule, none for the others. -/
def bracketed (p : Nat) : Option (List String → Except Empty String) :=
  if p = 1 then some fun texts => .ok ("(" ++ String.join texts ++ ")") else none

/-- The text of the sum of `1` and `2`. -/
def sumText : List Token := [⟨"x", "1"⟩, ⟨"+", "+"⟩, ⟨"x", "2"⟩]

theorem parse_sound_sum : ∃ t, Table.of sumGrammar = .ok t ∧
    (∀ n c, t.Runs (.ofActions Token.text "" bracketed) n ⟨[], sumText ++ [.end]⟩ c → Healthy t c) ∧
    ∀ value, t.parse (.ofActions Token.text "" bracketed) (sumText ++ [.end]) = .ok value →
      ∃ tree, sumGrammar.Derives "Sum" tree ∧ tree.yield = sumText ∧
        tree.fold (.ofActions Token.text "" bracketed) = .ok value := by
  obtain ⟨t, built, _⟩ := exists_table_sumGrammar
  have only : ∀ token ∈ sumText, token.kind ≠ endSymbol := by decide
  have isEnd : Token.end.kind = endSymbol := rfl
  obtain ⟨healthy, sound, runs⟩ := parse_sound unreserved_sumGrammar built Token.text "" bracketed isEnd only
  exact ⟨t, built, healthy, fun value parsed => sound value (runs value parsed)⟩

end XPathAnnotator.Grammar
