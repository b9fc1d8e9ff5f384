/-
**Canonical look-aheads.**

The canonical construction keeps apart what was read: each path of symbols leads to a set of items of its own, each with
a terminal that is valid after its production. A set is closed by the productions of every nonterminal after a dot, with
every terminal that the texts of what stands after the nonterminal may begin with, and reading a symbol moves the dots
over it. The item automaton knows its states by their kernels alone, so many paths lead to one state.

* `canonicalItems` — the items after a path, with their terminals;
* `expects_of_canonical`, `exists_canonical_of_expects` — what is expected after an item of a state is valid after it on
  some path to the state, and the other way round;
* `loopsEnd` — all loops that the look-aheads are computed by end;
* `lookaheads_canonical` — **the look-aheads of a kernel item are the terminals that are valid on some path to its
  state.**
-/

import Mathlib
import XPathAnnotator.Proofs.Grammar.Clear
import XPathAnnotator.Proofs.Grammar.Worklist

namespace XPathAnnotator.Grammar

open Automaton (Explored)

variable {g : Grammar}

/-! ### Items after a path -/

/-- The terminals that begin the texts of a row of symbols before a terminal. -/
def firstsOf (g : Grammar) (symbols : List String) (last : String) : Set String :=
  {t | ∃ trees, g.DerivesAll symbols trees ∧
    ((Tree.yieldAll trees).map Token.kind ++ [last]).head? = some t}

/-- The items with terminals that close a set of them: a production of the nonterminal after a dot starts, with what
may begin the rest of the item before its terminal. -/
inductive ClosedBy (g : Grammar) (items : Set (Item × String)) : Item → String → Prop
  | member {item : Item} {t : String} : (item, t) ∈ items → ClosedBy g items item t
  | start {item : Item} {t u b : String} {i : Nat} {p q : Production} {rest : List String} :
      ClosedBy g items item t → g.productions[item.production]? = some p → p.right.drop item.dot = b :: rest →
        g.productions[i]? = some q → q.left = b → u ∈ g.firstsOf rest t → ClosedBy g items ⟨i, 0⟩ u

/-- The closure of a set of items with terminals. -/
def canonicalClosure (g : Grammar) (items : Set (Item × String)) : Set (Item × String) :=
  {pair | g.ClosedBy items pair.1 pair.2}

/-- The items after a symbol is read. -/
def canonicalGoto (g : Grammar) (items : Set (Item × String)) (s : String) : Set (Item × String) :=
  g.canonicalClosure {pair | ∃ (item : Item) (p : Production) (rest : List String), (item, pair.2) ∈ items ∧
    g.productions[item.production]? = some p ∧ p.right.drop item.dot = s :: rest ∧ pair.1 = item.advanced}

/-- The items after a path, each with the terminals that are valid after its production. Before anything is read, the
end of the input is valid after the implicit production. -/
def canonicalItems (g : Grammar) (path : List String) : Set (Item × String) :=
  path.foldl g.canonicalGoto (g.canonicalClosure {(⟨0, 0⟩, endSymbol)})

/-- The state that a path leads to from the first one. -/
def stateAfter? (g : Grammar) (path : List String) : Option Nat :=
  path.foldlM (fun k s => g.automaton.target? k (g.code s)) 0

theorem canonicalItems_concat (path : List String) (s : String) :
    g.canonicalItems (path ++ [s]) = g.canonicalGoto (g.canonicalItems path) s := by
  rw [canonicalItems, List.foldl_append]
  rfl

theorem stateAfter?_concat {path : List String} {s : String} {j : Nat} :
    g.stateAfter? (path ++ [s]) = some j ↔
      ∃ k, g.stateAfter? path = some k ∧ g.automaton.target? k (g.code s) = some j := by
  unfold stateAfter?
  rw [List.foldlM_append]
  simp [Option.bind_eq_some_iff]

/-! ### First terminals -/

/-- A terminal that a symbol starts with begins one of its texts. -/
theorem exists_derives_of_starts (plain : g.Unreserved) (texts : ∀ s ∈ g.nonterminals, ∃ tree, g.Derives s tree)
    {n x : Nat} (starts : g.numbers.Starts n x) {s : String} (inSymbols : s ∈ g.symbols) (code : g.code s = n) :
    ∃ tree token rest, g.Derives s tree ∧ tree.yield = token :: rest ∧ g.code token.kind = x := by
  induction starts generalizing s with
  | terminal isTerminal =>
    rw [← code, code_mem_terminal_iff inSymbols] at isTerminal
    have notLeft := plain.unmarked.not_nonterminal_of_mem_terminals isTerminal
    exact ⟨.leaf ⟨s, ""⟩, ⟨s, ""⟩, [], @Derives.leaf g ⟨s, ""⟩ notLeft, rfl, code⟩
  | @production k p first rest x found shape _ ih =>
    obtain ⟨production, atK, rfl⟩ := exists_production found
    obtain rfl : s = production.left := code_inj inSymbols code
    obtain ⟨symbol, symbols, right, codeFirst, _⟩ := List.map_eq_cons_iff.mp shape
    have inRight : symbol ∈ production.right := by
      rw [right]
      exact List.mem_cons_self
    obtain ⟨tree, token, tokens, derives, begins, codeToken⟩ :=
      ih (right_mem_symbols (List.mem_of_getElem? atK) inRight) codeFirst
    obtain ⟨trees, derivesRest⟩ : ∃ trees, g.DerivesAll symbols trees :=
      exists_derivesAll fun other _ => exists_derives_of_nonterminals texts other
    refine ⟨.node k (tree :: trees), token, tokens ++ Tree.yieldAll trees, .node atK ?_, ?_, codeToken⟩
    · rw [right]
      exact .cons derives derivesRest
    · rw [Tree.yield, Tree.yieldAll, begins, List.cons_append]

/-- **The first terminals** of a row of symbols before a terminal are those that may follow a symbol before the row. -/
theorem mem_firstsOf (plain : g.Unreserved) (texts : ∀ s ∈ g.nonterminals, ∃ tree, g.Derives s tree)
    {symbols : List String} (within : ∀ s ∈ symbols, s ∈ g.symbols) {t u : String} (isTerminal : t ∈ g.terminals) :
    u ∈ g.firstsOf symbols t ↔
      u ∈ g.terminals ∧ g.numbers.Follows (g.code t) (symbols.map g.code) (g.code u) := by
  constructor
  · rintro ⟨trees, derives, head⟩
    cases derives with
    | nil =>
      obtain rfl : t = u := Option.some.inj head
      exact ⟨isTerminal, .inherited⟩
    | @cons s symbols tree trees first rest =>
      obtain ⟨token, tokens, begins, firstTerminal, starts⟩ := first.exists_first (within s List.mem_cons_self)
      rw [Tree.yieldAll, begins] at head
      obtain rfl : token.kind = u := Option.some.inj head
      exact ⟨firstTerminal, .started starts⟩
  · rintro ⟨otherTerminal, follows⟩
    cases symbols with
    | nil =>
      generalize code : g.code u = x at follows
      cases follows with
      | inherited => exact ⟨[], .nil, congrArg some (code_inj (mem_symbols.mpr (.inr otherTerminal)) code).symm⟩
    | cons s symbols =>
      cases follows with
      | started starts =>
        obtain ⟨tree, token, tokens, derives, begins, code⟩ :=
          exists_derives_of_starts plain texts starts (within s List.mem_cons_self) rfl
        obtain ⟨trees, derivesRest⟩ : ∃ trees, g.DerivesAll symbols trees :=
          exists_derivesAll fun other _ => exists_derives_of_nonterminals texts other
        refine ⟨tree :: trees, .cons derives derivesRest, ?_⟩
        rw [Tree.yieldAll, begins]
        exact congrArg some (code_inj (mem_symbols.mpr (.inr otherTerminal)) code.symm).symm

/-! ### Valid look-aheads are expected -/

section Expected

variable {k : Nat} {item : Item} {t : String}

/-- What closes a set is expected where the set is. -/
theorem ClosedBy.expects (plain : g.Unreserved) (texts : ∀ s ∈ g.nonterminals, ∃ tree, g.Derives s tree)
    {items : Set (Item × String)}
    (members : ∀ item t, (item, t) ∈ items → t ∈ g.terminals ∧ g.ExpectsAt k item (g.code t))
    (closed : g.ClosedBy items item t) : t ∈ g.terminals ∧ g.ExpectsAt k item (g.code t) := by
  induction closed with
  | member inItems => exact members _ _ inItems
  | @start item t u b i p q rest _ foundItem shape found left first ih =>
    obtain ⟨isTerminal, expects⟩ := ih
    have within : ∀ s ∈ rest, s ∈ g.symbols := by
      intro s member
      have afterDot : s ∈ p.right.drop item.dot := by
        rw [shape]
        exact List.mem_cons_of_mem b member
      exact right_mem_symbols (List.mem_of_getElem? foundItem) (List.mem_of_mem_drop afterDot)
    obtain ⟨firstTerminal, follows⟩ := (mem_firstsOf plain texts within isTerminal).mp first
    refine ⟨firstTerminal, expects.spread (nextSymbol?_of_drop foundItem shape) (numbers_productions found) ?_ ?_⟩
    · rw [← left]
      rfl
    · rw [restAfterNext_of_drop foundItem shape]
      exact follows

/-- **What is valid after a path is expected** in the state that the path leads to. -/
theorem expects_of_canonical (plain : g.Unreserved) (texts : ∀ s ∈ g.nonterminals, ∃ tree, g.Derives s tree)
    {path : List String} (leads : g.stateAfter? path = some k) (valid : (item, t) ∈ g.canonicalItems path) :
    t ∈ g.terminals ∧ g.ExpectsAt k item (g.code t) := by
  induction path using List.reverseRecOn generalizing k item t with
  | nil =>
    obtain rfl : 0 = k := Option.some.inj leads
    refine ClosedBy.expects plain texts (fun item t member => ?_) valid
    obtain ⟨rfl, rfl⟩ := Prod.mk.inj member
    exact ⟨end_mem_terminals, .start⟩
  | append_singleton path s ih =>
    obtain ⟨j, before, target⟩ := stateAfter?_concat.mp leads
    rw [canonicalItems_concat] at valid
    refine ClosedBy.expects plain texts ?_ valid
    rintro _ t ⟨origin, p, rest, old, found, shape, rfl⟩
    obtain ⟨isTerminal, expects⟩ := ih before old
    exact ⟨isTerminal, expects.advance ⟨g.code s, nextSymbol?_of_drop found shape, target⟩⟩

/-! ### Expected terminals are valid on some path -/

theorem mem_canonicalItems_start : (⟨0, 0⟩, endSymbol) ∈ g.canonicalItems [] := .member rfl

/-- The productions of the next symbol start after a path, with what may stand after that symbol. -/
theorem mem_canonicalItems_of_start {path : List String} {u b : String} {i : Nat} {p q : Production}
    {rest : List String} (valid : (item, t) ∈ g.canonicalItems path)
    (foundItem : g.productions[item.production]? = some p) (shape : p.right.drop item.dot = b :: rest)
    (found : g.productions[i]? = some q) (left : q.left = b) (first : u ∈ g.firstsOf rest t) :
    (⟨i, 0⟩, u) ∈ g.canonicalItems path := by
  induction path using List.reverseRecOn with
  | nil => exact .start valid foundItem shape found left first
  | append_singleton path s _ =>
    rw [canonicalItems_concat] at valid ⊢
    exact .start valid foundItem shape found left first

/-- **What is expected in a state is valid after it on some path to the state.** -/
theorem exists_canonical_of_expects (plain : g.Unreserved)
    (texts : ∀ s ∈ g.nonterminals, ∃ tree, g.Derives s tree) {x : Nat} (expects : g.ExpectsAt k item x) :
    ∃ path t, g.stateAfter? path = some k ∧ (item, t) ∈ g.canonicalItems path ∧ t ∈ g.terminals ∧
      g.code t = x := by
  induction expects with
  | start => exact ⟨[], endSymbol, rfl, mem_canonicalItems_start, end_mem_terminals, rfl⟩
  | @spread k i b y x item p expects next found left follows ih =>
    obtain ⟨path, t, leads, valid, isTerminal, rfl⟩ := ih
    obtain ⟨q, foundStart, rfl⟩ := exists_production found
    obtain ⟨_, inNumbers, _⟩ := Numbered.nextSymbol?_eq_some.mp next
    obtain ⟨p, foundItem, _⟩ := exists_production inNumbers
    obtain rfl : g.code q.left = b := left
    have inSymbols : q.left ∈ g.symbols :=
      mem_symbols.mpr (.inl (left_mem_nonterminals (List.mem_of_getElem? foundStart)))
    have shape := drop_of_next inSymbols next foundItem
    rw [restAfterNext_of_drop foundItem shape] at follows
    have isExpected : x ∈ g.numbers.terminal :=
      follows.mem_terminal (mem_ofGrammar_terminal.mpr ⟨t, isTerminal, rfl⟩)
    obtain ⟨u, firstTerminal, rfl⟩ := mem_ofGrammar_terminal.mp isExpected
    have within : ∀ s ∈ p.right.drop (item.dot + 1), s ∈ g.symbols := fun s member =>
      right_mem_symbols (List.mem_of_getElem? foundItem) (List.mem_of_mem_drop member)
    have first := (mem_firstsOf plain texts within isTerminal).mpr ⟨firstTerminal, follows⟩
    exact ⟨path, u, leads, mem_canonicalItems_of_start valid foundItem shape foundStart rfl first,
      firstTerminal, rfl⟩
  | @advance k j x item expects steps ih =>
    obtain ⟨path, t, leads, valid, isTerminal, rfl⟩ := ih
    obtain ⟨n, next, target⟩ := steps
    obtain ⟨_, inNumbers, atDot⟩ := Numbered.nextSymbol?_eq_some.mp next
    obtain ⟨p, foundItem, rfl⟩ := exists_production inNumbers
    obtain ⟨s, inRight, rfl⟩ := List.mem_map.mp (List.mem_of_getElem? atDot)
    have inSymbols := right_mem_symbols (List.mem_of_getElem? foundItem) inRight
    refine ⟨path ++ [s], t, stateAfter?_concat.mpr ⟨k, leads, target⟩, ?_, isTerminal, rfl⟩
    rw [canonicalItems_concat]
    exact .member ⟨item, p, _, valid, foundItem, drop_of_next inSymbols next foundItem, rfl⟩

end Expected

/-! ### Loops -/

/-- One round of adding the left sides of productions of which all symbols are known to derive the empty text. -/
def nullableRound (g : Grammar) (known : List String) : List String :=
  g.productions.foldl (fun known p =>
    if p.left ∉ known ∧ ∀ s ∈ p.right, s ∈ known then known ++ [p.left] else known) known

/-- No production is empty, so the first round adds nothing. -/
theorem nullableRound_nullable (g : Grammar) : g.nullableRound g.nullable = g.nullable := by
  refine foldl_induction (P := fun known => known = []) ?_ rfl
  rintro _ p _ rfl
  refine if_neg ?_
  rintro ⟨_, known⟩
  obtain ⟨s, inRight⟩ := List.exists_mem_of_ne_nil _ p.right_ne_nil
  exact absurd (known s inRight) List.not_mem_nil

/-- The nonterminals that are next in a kernel. -/
def Numbered.reachSeeds (n : Numbered) (kernel : List Item) : SymbolSet :=
  kernel.foldl (fun set item => set.union (n.nonterminalSet (n.nextSymbol? item))) .empty

/-- A kernel item as it is traced: with the placeholder. -/
abbrev Numbered.traced (n : Numbered) (item : Item) : List (Item × SymbolSet) := [(item, .singleton n.placeholder)]

/-- **All loops end** that the look-aheads of a grammar are computed by, each with what it computes: the symbols that
derive the empty text, the first terminals, the nonterminals and the items of each state, the states, what spreads from
each kernel item that is traced, set by set and item by item, and the look-aheads handed on. -/
structure LoopsEnd (g : Grammar) : Prop where
  nullable : LoopEnds (changed? g.nullableRound) [] g.nullable
  first : LoopEnds (changed? g.numbers.firstStep) g.numbers.firstSeeds g.numbers.first
  reached : ∀ kernel, LoopEnds (changed? g.numbers.reachStep) (g.numbers.reachSeeds kernel) (g.numbers.reached kernel)
  items : ∀ kernel ∈ g.automaton.kernels, ∃ l, LoopEnds (Listing.look? g.numbers) ⟨kernel, 0⟩ l ∧
    ∀ item, item ∈ l.items ↔ item ∈ g.numbers.itemsOf kernel
  states : LoopEnds (Automaton.visit? g.numbers) ⟨#[[⟨0, 0⟩]], #[]⟩ g.automaton
  spread : ∀ kernel ∈ g.automaton.kernels, ∀ item ∈ kernel,
    LoopEnds (changed? (g.numbers.spreadStep g.numbers.first))
      (g.numbers.spreadSeeds g.numbers.first (g.numbers.traced item))
      (g.numbers.spread g.numbers.first (g.numbers.traced item))
  closure : ∀ kernel ∈ g.automaton.kernels, ∀ item ∈ kernel, ∃ w,
    LoopEnds (Worklist.look? g.numbers) (.ofKernel (g.numbers.traced item)) w ∧ ∀ other lookaheads,
      w.found other = some lookaheads ↔ (other, lookaheads) ∈ g.numbers.closure g.numbers.first (g.numbers.traced item)
  inherited : LoopEnds
    (changed? (inheritStep (traceAll g.numbers g.automaton (Slots.of g.automaton) g.numbers.first).inheritance))
    (traceAll g.numbers g.automaton (Slots.of g.automaton) g.numbers.first).lookaheads
    (lookaheadSets g.numbers g.automaton)

theorem loopsEnd (plain : g.Unreserved) : g.LoopsEnd := by
  have proper := ofGrammar_proper plain
  have explored := explored_automaton plain
  have fits : ∀ kernel ∈ g.automaton.kernels, ∀ item ∈ kernel, g.numbers.Fit (g.numbers.traced item) := by
    intro kernel inKernels item inKernel
    obtain ⟨k, atState⟩ := Array.mem_iff_getElem?.mp inKernels
    exact explored.fit_traced proper atState inKernel
  refine
    { nullable := .ended (if_pos g.nullableRound_nullable)
      first := loopEnds_saturate (Numbered.firstStep_first g.numbers)
      reached := fun kernel => loopEnds_saturate (Numbered.reachStep_reached g.numbers kernel)
      items := fun kernel inKernels => ?_
      states := Automaton.loopEnds_explore explored.all_visited
      spread := fun kernel inKernels item inKernel => ?_
      closure := fun kernel inKernels item inKernel => ?_
      inherited := loopEnds_saturate (inheritStep_lookaheadSets proper explored) }
  · exact Listing.exists_loopEnds_itemsOf proper (explored.good kernel inKernels).ascending.nodup
  · exact loopEnds_saturate (Numbered.spreadStep_spread proper (fits kernel inKernels item inKernel).few)
  · exact Worklist.exists_loopEnds_closure proper (fits kernel inKernels item inKernel) (List.nodup_singleton item)

/-! ### The look-aheads of states -/

/-- A terminal is valid after an item on some path to a state. -/
def ValidAt (g : Grammar) (k : Nat) (item : Item) (t : String) : Prop :=
  ∃ path, g.stateAfter? path = some k ∧ (item, t) ∈ g.canonicalItems path

theorem expectsAt_iff_validAt (plain : g.Unreserved) (texts : ∀ s ∈ g.nonterminals, ∃ tree, g.Derives s tree)
    {k x : Nat} {item : Item} : g.ExpectsAt k item x ↔ ∃ t ∈ g.terminals, g.code t = x ∧ g.ValidAt k item t := by
  constructor
  · intro expects
    obtain ⟨path, t, leads, valid, isTerminal, code⟩ := exists_canonical_of_expects plain texts expects
    exact ⟨t, isTerminal, code, path, leads, valid⟩
  · rintro ⟨t, _, rfl, path, leads, valid⟩
    exact (expects_of_canonical plain texts leads valid).2

/-- The states and the look-aheads of a table. -/
theorem Table.lookaheads_of {t : Table} (built : Table.of g = .ok t) :
    t.automaton = g.automaton ∧ t.lookaheads = Grammar.lookaheads g.numbers g.automaton := by
  unfold Table.of at built
  split at built
  · exact absurd built (by simp)
  · dsimp only at built
    split at built
    · exact absurd built (by simp)
    · obtain rfl := Except.ok.inj built
      exact ⟨rfl, rfl⟩

/-- **The look-aheads of a kernel item are the canonical ones, over all paths to its state.** For every grammar without
reserved names in which every nonterminal derives some text, each state has a row with the items of its kernel, and the
look-aheads of each are the numbers of the terminals that are valid after the item on some path to the state. A table
has these states and look-aheads, and all loops that compute them end. -/
theorem lookaheads_canonical (plain : g.Unreserved) (texts : ∀ s ∈ g.nonterminals, ∃ tree, g.Derives s tree) :
    (∀ k kernel, g.automaton.kernels[k]? = some kernel →
      ∃ row, (Grammar.lookaheads g.numbers g.automaton)[k]? = some row ∧ row.map Prod.fst = kernel ∧
        ∀ item lookaheads, (item, lookaheads) ∈ row →
          ∀ x, x ∈ lookaheads ↔ ∃ t ∈ g.terminals, g.code t = x ∧ g.ValidAt k item t) ∧
      (∀ t, Table.of g = .ok t →
        t.automaton = g.automaton ∧ t.lookaheads = Grammar.lookaheads g.numbers g.automaton) ∧
      g.LoopsEnd := by
  have proper := ofGrammar_proper plain
  have explored := explored_automaton plain
  have productive := productive_of_derives plain texts
  refine ⟨fun k kernel atState => ?_, fun t built => Table.lookaheads_of built, loopsEnd plain⟩
  refine ⟨kernelLookaheads g.numbers g.automaton k, ?_, map_fst_kernelLookaheads atState, ?_⟩
  · have inside := (Array.getElem?_eq_some_iff.mp atState).1
    simp [lookaheads_eq, inside]
  · intro item lookaheads inRow x
    rw [kernelLookaheads_eq atState] at inRow
    obtain ⟨_, inKernel, same⟩ := List.mem_map.mp inRow
    obtain ⟨rfl, rfl⟩ := Prod.mk.inj same
    rw [mem_lookaheadSet proper explored productive atState inKernel]
    exact expectsAt_iff_validAt plain texts

/-- A grammar in which two paths lead to one state: `c` is read after `a` and after `b`, and `d` stands after it in one
case, `e` in the other. -/
def mergingGrammar : Grammar :=
  ⟨"S", [⟨"S", ["a", "A", "d"], List.cons_ne_nil _ _⟩, ⟨"S", ["b", "A", "e"], List.cons_ne_nil _ _⟩,
    ⟨"A", ["c"], List.cons_ne_nil _ _⟩]⟩

/-- What the table of the grammar with two paths is made from. -/
theorem tableSource_mergingGrammar : mergingGrammar.tableSource =
    { productions := mergingGrammar.productions.toArray
      symbols := #["$accept", "S", "A", "a", "d", "b", "e", "c", "EOF"]
      terminals := ["a", "d", "b", "e", "c", "EOF"]
      sorted := [("EOF", 8), ("a", 3), ("b", 5), ("c", 7), ("d", 4), ("e", 6)]
      numbered := ⟨3, 9, #[⟨0, [1]⟩, ⟨1, [3, 2, 4]⟩, ⟨1, [5, 2, 6]⟩, ⟨2, [7]⟩], ⟨504⟩, 8, 9⟩
      automaton :=
        ⟨#[[⟨0, 0⟩], [⟨0, 1⟩], [⟨1, 1⟩], [⟨2, 1⟩], [⟨1, 2⟩], [⟨3, 1⟩], [⟨2, 2⟩], [⟨1, 3⟩], [⟨2, 3⟩]],
          #[[(1, 1), (3, 2), (5, 3)], [], [(2, 4), (7, 5)], [(2, 6), (7, 5)], [(4, 7)], [], [(6, 8)], [], []]⟩
      first := #[⟨40⟩, ⟨40⟩, ⟨128⟩, ⟨8⟩, ⟨16⟩, ⟨32⟩, ⟨64⟩, ⟨128⟩, ⟨256⟩] } :=
  tableSource_eq rfl (by decide +kernel) (by decide +kernel) (by cbv) (by decide +kernel) (by decide +kernel)
    (by decide +kernel)

/-- The look-aheads of its kernels: state 5, which both paths lead to, has those of both. -/
theorem lookaheads_mergingGrammar :
    Grammar.lookaheads mergingGrammar.tableSource.numbered mergingGrammar.tableSource.automaton =
      #[[(⟨0, 0⟩, ⟨256⟩)], [(⟨0, 1⟩, ⟨256⟩)], [(⟨1, 1⟩, ⟨256⟩)], [(⟨2, 1⟩, ⟨256⟩)], [(⟨1, 2⟩, ⟨256⟩)],
        [(⟨3, 1⟩, ⟨80⟩)], [(⟨2, 2⟩, ⟨256⟩)], [(⟨1, 3⟩, ⟨256⟩)], [(⟨2, 3⟩, ⟨256⟩)]] := by
  rw [tableSource_mergingGrammar]
  decide +kernel

theorem exists_table_mergingGrammar : ∃ t, Table.of mergingGrammar = .ok t := by
  have rows : ∃ rows, Table.rowsOf mergingGrammar.tableSource 0 #[] []
      (Grammar.lookaheads mergingGrammar.tableSource.numbered mergingGrammar.tableSource.automaton).toList =
        .ok (rows, []) := by
    rw [lookaheads_mergingGrammar, tableSource_mergingGrammar]
    exact ⟨_, rfl⟩
  obtain ⟨rows, made⟩ := rows
  obtain ⟨t, built, _⟩ := Table.exists_table_of_rows (by decide) made
  exact ⟨t, built⟩

theorem lookaheads_canonical_merging :
    mergingGrammar.Unreserved ∧ (∀ s ∈ mergingGrammar.nonterminals, ∃ tree, mergingGrammar.Derives s tree) ∧
      (mergingGrammar.ValidAt 5 ⟨3, 1⟩ "d" ∧ mergingGrammar.ValidAt 5 ⟨3, 1⟩ "e" ∧
        ¬ mergingGrammar.ValidAt 5 ⟨3, 1⟩ "EOF") ∧
      (∃ t, Table.of mergingGrammar = .ok t ∧ t.lookaheads[5]? = some [(⟨3, 1⟩, ⟨80⟩)]) ∧ mergingGrammar.LoopsEnd := by
  have plain : mergingGrammar.Unreserved := ⟨by decide, by decide, by decide⟩
  have found : ∀ s ∈ mergingGrammar.nonterminals, s ∈ Nat.repeat mergingGrammar.fruitfulRound 3 [] := by decide +kernel
  have texts : ∀ s ∈ mergingGrammar.nonterminals, ∃ tree, mergingGrammar.Derives s tree :=
    fun s isLeft => exists_derives_of_mem_repeat 3 s (found s isLeft)
  obtain ⟨states, ofTable, loops⟩ := lookaheads_canonical plain texts
  have atState : mergingGrammar.automaton.kernels[5]? = some [⟨3, 1⟩] := by
    rw [automaton_of_tableSource tableSource_mergingGrammar]
    rfl
  have atFive : (Grammar.lookaheads mergingGrammar.numbers mergingGrammar.automaton)[5]? = some [(⟨3, 1⟩, ⟨80⟩)] := by
    change (Grammar.lookaheads mergingGrammar.tableSource.numbered mergingGrammar.tableSource.automaton)[5]? = _
    rw [lookaheads_mergingGrammar]
    rfl
  obtain ⟨row, atRow, _, valid⟩ := states 5 _ atState
  obtain rfl := Option.some.inj (atFive.symm.trans atRow)
  have valid_iff : ∀ t ∈ mergingGrammar.terminals,
      mergingGrammar.ValidAt 5 ⟨3, 1⟩ t ↔ mergingGrammar.code t ∈ (⟨80⟩ : SymbolSet) := by
    intro t isTerminal
    rw [valid _ _ (List.mem_singleton_self _)]
    constructor
    · exact fun validAt => ⟨t, isTerminal, rfl, validAt⟩
    · rintro ⟨u, otherTerminal, code, validAt⟩
      exact code_inj (mem_symbols.mpr (.inr otherTerminal)) code ▸ validAt
  obtain ⟨t, built⟩ := exists_table_mergingGrammar
  refine ⟨plain, texts, ⟨?_, ?_, ?_⟩, ⟨t, built, ?_⟩, loops⟩
  · exact (valid_iff "d" (by decide +kernel)).mpr (by decide +kernel)
  · exact (valid_iff "e" (by decide +kernel)).mpr (by decide +kernel)
  · exact fun validAt => absurd ((valid_iff "EOF" (by decide +kernel)).mp validAt) (by decide +kernel)
  · rw [(ofTable t built).2]
    exact atFive

end XPathAnnotator.Grammar
