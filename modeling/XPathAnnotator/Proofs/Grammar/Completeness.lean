/-
**Parsing is complete.**

In a table without conflicts the parser follows every derivation tree: `tree_runs` runs over the tokens of a tree
and leaves its value on the stack, or ends with the first value refused. Together with the bound on all runs
this gives `parse_complete`: parsing ends on every row of tokens, the value of a sentence is the fold of its
derivation tree, and there is only one such tree.
-/

import Mathlib
import XPathAnnotator.Proofs.Grammar.Termination

namespace XPathAnnotator.Grammar

open Table (top)

variable {g : Grammar} {t : Table} {α ε : Type} {semantics : Semantics α ε}

/-! ### Following a tree -/

/-- A run from a configuration comes to what a value tells of its end, or ends as the value is refused. -/
inductive Comes (t : Table) (semantics : Semantics α ε) {β : Type} (c : Configuration α)
    (follows : β → Configuration α → Prop) : Except ε β → Prop
  | ok {value : β} {n : Nat} {d : Configuration α} :
      follows value d → t.Runs semantics n c d → Comes t semantics c follows (.ok value)
  | error {cause : ε} :
      t.Ends semantics c (.error (.refused cause)) → Comes t semantics c follows (.error cause)

/-- The parser runs over the tokens of a tree of a symbol that an item has next, if a terminal follows that is
expected after the symbol. -/
def TreeRuns (g : Grammar) (t : Table) (semantics : Semantics α ε) (tree : Tree) : Prop :=
  ∀ (s : String) (stack : List (Nat × α)) (item : Item) (y : Nat) (token : Token) (rest : List Token),
    g.Derives s tree → s ∈ g.symbols → g.ExpectsAt (top stack) item y →
      g.numbers.nextSymbol? item = some (g.code s) → token.kind ∈ g.terminals →
        g.numbers.Follows y (g.numbers.restAfterNext item) (g.code token.kind) →
          Comes t semantics ⟨stack, tree.yield ++ token :: rest⟩
            (fun value d => ∃ j, g.automaton.target? (top stack) (g.code s) = some j ∧
              d = ⟨(j, value) :: stack, token :: rest⟩) (tree.fold semantics)

/-- A terminal follows each tree of a right side: the first one of the next tree, or the one after the whole. -/
theorem exists_next {p d : Nat} {production : Production} (found : g.productions[p]? = some production)
    {s : String} {symbols : List String} (shape : production.right.drop d = s :: symbols) {trees : List Tree}
    (derives : g.DerivesAll symbols trees) {token : Token} (isTerminal : token.kind ∈ g.terminals)
    (rest : List Token) :
    ∃ next tail, Tree.yieldAll trees ++ token :: rest = next :: tail ∧ next.kind ∈ g.terminals ∧
      g.numbers.Follows (g.code token.kind) (g.numbers.restAfterNext ⟨p, d⟩) (g.code next.kind) := by
  rw [restAfterNext_of_drop found shape]
  cases derives with
  | nil => exact ⟨token, rest, rfl, isTerminal, .inherited⟩
  | @cons first symbols tree trees derivesFirst _ =>
    have inDrop : first ∈ production.right.drop d := by simp [shape]
    have inSymbols : first ∈ g.symbols :=
      right_mem_symbols (List.mem_of_getElem? found) (List.mem_of_mem_drop inDrop)
    obtain ⟨next, tail, begins, nextTerminal, starts⟩ := derivesFirst.exists_first inSymbols
    refine ⟨next, tail ++ Tree.yieldAll trees ++ token :: rest, ?_, nextTerminal, .started starts⟩
    simp [Tree.yieldAll, begins]

/-- The parser runs over the trees of the rest of a right side. -/
theorem row_runs {p : Nat} {production : Production}
    (found : g.productions[p]? = some production) {token : Token} (isTerminal : token.kind ∈ g.terminals)
    (rest : List Token) {trees : List Tree} (runs : ∀ tree ∈ trees, TreeRuns g t semantics tree) {d : Nat}
    {stack : List (Nat × α)} (derives : g.DerivesAll (production.right.drop d) trees)
    (expects : g.ExpectsAt (top stack) ⟨p, d⟩ (g.code token.kind)) :
    Comes t semantics ⟨stack, Tree.yieldAll trees ++ token :: rest⟩
      (fun values e => ∃ pushed : List (Nat × α), pushed.map (·.2) = values.reverse ∧
        pushed.length = trees.length ∧
          g.ExpectsAt (top (pushed ++ stack)) ⟨p, d + trees.length⟩ (g.code token.kind) ∧
            e = ⟨pushed ++ stack, token :: rest⟩) (Tree.foldAll semantics trees) := by
  induction trees generalizing d stack with
  | nil => exact .ok ⟨[], rfl, rfl, expects, rfl⟩ .done
  | cons tree trees ih =>
    generalize shape : production.right.drop d = symbols at derives
    cases derives with
    | @cons s symbols _ _ derivesFirst derivesRest =>
      obtain ⟨next, tail, input, nextTerminal, follows⟩ := exists_next found shape derivesRest isTerminal rest
      have nextIs := nextSymbol?_of_drop found shape
      have inSymbols : s ∈ g.symbols := by
        have inDrop : s ∈ production.right.drop d := by simp [shape]
        exact right_mem_symbols (List.mem_of_getElem? found) (List.mem_of_mem_drop inDrop)
      have first := runs tree List.mem_cons_self s stack ⟨p, d⟩ _ next tail derivesFirst inSymbols expects
        nextIs nextTerminal follows
      rw [Tree.yieldAll, List.append_assoc, input, Tree.foldAll]
      generalize folded : tree.fold semantics = result at first
      cases first with
      | error ends => exact .error ends
      | @ok value m _ reached runsFirst =>
        obtain ⟨j, target, rfl⟩ := reached
        have advanced : g.ExpectsAt j ⟨p, d + 1⟩ (g.code token.kind) := expects.advance ⟨_, nextIs, target⟩
        have dropped : production.right.drop (d + 1) = symbols := by
          rw [← List.drop_drop, shape]
          rfl
        rw [← dropped] at derivesRest
        have later := @ih (fun other member => runs other (List.mem_cons_of_mem _ member)) (d + 1)
          ((j, value) :: stack) derivesRest advanced
        rw [input] at later
        dsimp only
        generalize foldedRest : Tree.foldAll semantics trees = results at later
        cases later with
        | error ends => exact .error (ends.prepend runsFirst)
        | @ok values n _ reached runsRest =>
          obtain ⟨pushed, valuesAre, lengthIs, expectsEnd, rfl⟩ := reached
          refine .ok ⟨pushed ++ [(j, value)], ?_, ?_, ?_, ?_⟩ (runsFirst.trans runsRest)
          · simp [valuesAre]
          · simp [lengthIs]
          · rw [List.append_assoc, List.length_cons, Nat.add_comm trees.length 1, ← Nat.add_assoc]
            exact expectsEnd
          · rw [List.append_assoc]
            rfl

/-- **The parser follows every tree.** -/
theorem tree_runs (decided : Decided g t) (semantics : Semantics α ε) (tree : Tree) :
    TreeRuns g t semantics tree := by
  induction tree using Tree.induction with
  | leaf token' =>
    intro s stack item y token rest derives inSymbols expects next _ _
    cases derives with
    | leaf notLeft =>
      obtain ⟨kernel, atState, member⟩ := expects.mem_itemsOf decided.proper decided.explored
      obtain ⟨j, target, acts⟩ := decided.reads atState member next
        (mem_terminals_of_not_nonterminal inSymbols notLeft)
      refine .ok ⟨j, target, rfl⟩ (.one ?_)
      show t.step semantics ⟨stack, token' :: token :: rest⟩ = _
      rw [Table.step_eq, acts]
  | node p children ih =>
    intro s stack item y token rest derives inSymbols expects next isTerminal follows
    cases derives with
    | @node _ production _ found derivesAll =>
      have explicit : p ≠ 0 := by
        rintro rfl
        obtain rfl : g.acceptProduction = production := Option.some.inj found
        obtain ⟨q, inProductions, atDot⟩ := Numbered.nextSymbol?_eq_some.mp next
        exact decided.proper.right_ne_zero inProductions _ (List.mem_of_getElem? atDot) code_accept
      have started : g.ExpectsAt (top stack) ⟨p, 0⟩ (g.code token.kind) :=
        expects.spread next (numbers_productions found) rfl follows
      have children_run := row_runs (d := 0) found isTerminal rest ih derivesAll started
      rw [Tree.yield, Tree.fold]
      generalize folded : Tree.foldAll semantics children = result at children_run
      cases children_run with
      | error ends => exact .error ends
      | @ok values n _ reached runs =>
        obtain ⟨pushed, valuesAre, lengthIs, expectsEnd, rfl⟩ := reached
        have count : pushed.length = production.right.length := lengthIs.trans derivesAll.length_eq.symm
        rw [Nat.zero_add, ← derivesAll.length_eq] at expectsEnd
        have acts := decided.reduces found explicit isTerminal expectsEnd
        obtain ⟨kernel, atState, member⟩ := expects.mem_itemsOf decided.proper decided.explored
        obtain ⟨j, target, _⟩ := decided.explored.target_of_next decided.proper atState member next
        have goto : t.goto? (top stack) production.left = some j := by
          rw [decided.made.goto?_eq atState (left_mem_nonterminals (List.mem_of_getElem? found)), target]
        have reduced : t.step semantics ⟨pushed ++ stack, token :: rest⟩ =
            t.reduce semantics token ⟨pushed ++ stack, token :: rest⟩ p := by
          rw [Table.step_eq, acts]
        rw [Table.reduce_eq (decided.made.getElem?_productions found), ← count, List.drop_left, List.take_left, valuesAre,
          List.reverse_reverse, goto] at reduced
        dsimp only
        cases made : semantics.node p values with
        | error cause =>
          rw [made] at reduced
          exact .error (.prepend runs (.of_step (by rw [reduced]; rfl)))
        | ok value =>
          rw [made] at reduced
          exact .ok ⟨j, target, rfl⟩ (runs.trans (.one reduced))

/-- The parser ends on the text of a tree of the start symbol with the value of the tree. -/
theorem ends_of_derives (decided : Decided g t) (semantics : Semantics α ε) {tree : Tree}
    (derives : g.Derives g.start tree) {e : Token} (isEnd : e.kind = endSymbol) :
    t.Ends semantics ⟨[], tree.yield ++ [e]⟩ ((tree.fold semantics).mapError .refused) := by
  have implicit : g.productions[0]? = some g.acceptProduction := rfl
  have next : g.numbers.nextSymbol? ⟨0, 0⟩ = some (g.code g.start) :=
    Decided.nextSymbol?_start implicit rfl
  have inSymbols : g.start ∈ g.symbols := mem_symbols.mpr (Or.inl decided.made.start_mem)
  have isTerminal : e.kind ∈ g.terminals := isEnd ▸ end_mem_terminals
  have first : g.ExpectsAt (top ([] : List (Nat × α))) ⟨0, 0⟩ (g.code e.kind) := by
    rw [isEnd]
    exact .start
  have runs := tree_runs decided semantics tree g.start [] ⟨0, 0⟩ _ e [] derives inSymbols first next isTerminal
    (by rw [Decided.restAfterNext_start implicit rfl]; exact .inherited)
  generalize folded : tree.fold semantics = result at runs
  cases runs with
  | error ends => exact ends
  | @ok value _ _ reached runs =>
    obtain ⟨j, target, rfl⟩ := reached
    have acts : t.action? (top [(j, value)]) e.kind = some .accept := by
      rw [isEnd]
      exact decided.accepts (first.advance ⟨_, next, target⟩)
    refine .prepend runs (.of_step ?_)
    rw [Table.step_eq, acts]
    rfl

/-! ### Completeness -/

/-- The value of a tree is there if no node refuses. -/
theorem Tree.exists_fold {semantics : Semantics α ε}
    (total : ∀ p values, ∃ value, semantics.node p values = .ok value) (tree : Tree) :
    ∃ value, tree.fold semantics = .ok value := by
  induction tree using Tree.induction with
  | leaf token => exact ⟨_, rfl⟩
  | node p children ih =>
    obtain ⟨values, folded⟩ : ∃ values, Tree.foldAll semantics children = .ok values := by
      induction children with
      | nil => exact ⟨[], rfl⟩
      | cons child children rest =>
        obtain ⟨value, first⟩ := ih child List.mem_cons_self
        obtain ⟨values, later⟩ := rest fun other member => ih other (List.mem_cons_of_mem _ member)
        exact ⟨value :: values, by rw [Tree.foldAll, first, later]⟩
    obtain ⟨value, made⟩ := total p values
    exact ⟨value, by rw [Tree.fold, folded]; exact made⟩

/-- The parser returns what its runs end with. -/
theorem parse_eq_of_ends (decided : Decided g t) {tokens : List Token}
    {outcome : Except (ParseFailure ε) α} (ends : t.Ends semantics ⟨[], tokens⟩ outcome) :
    t.parse semantics tokens = outcome := by
  obtain ⟨other, within⟩ := exists_endsWithin_parse decided semantics tokens
  rw [Table.Ends.unique ends ⟨_, within⟩]
  exact Table.run_eq_of_endsWithin within

/-- **A text has one derivation tree.** -/
theorem Derives.unique (decided : Decided g t) {tree other : Tree} (derives : g.Derives g.start tree)
    (derivesOther : g.Derives g.start other) (same : tree.yield = other.yield) : tree = other := by
  have one := ends_of_derives decided treeSemantics derives (e := .end) rfl
  have two := ends_of_derives decided treeSemantics derivesOther (e := .end) rfl
  rw [fold_treeSemantics] at one two
  rw [← same] at two
  exact Except.ok.inj (one.unique two)

/-- If the left sides of all rules derive some text, so does the implicit symbol. -/
theorem exists_derives (plain : g.Unreserved) (present : g.start ∈ g.nonterminals)
    (derivable : ∀ p ∈ g.rules, ∃ tree, g.Derives p.left tree) :
    ∀ s ∈ g.nonterminals, ∃ tree, g.Derives s tree := by
  intro s member
  obtain ⟨p, inside, rfl⟩ := mem_nonterminals.mp member
  rcases mem_productions.mp inside with rfl | rule
  · obtain ⟨q, inside, startIs⟩ := mem_nonterminals.mp present
    rcases mem_productions.mp inside with rfl | rule
    · refine absurd ?_ plain.start
      rw [← startIs]
      show acceptSymbol ∈ reservedNames
      decide
    · obtain ⟨tree, derives⟩ := derivable q rule
      rw [startIs] at derives
      have implicit : g.productions[0]? = some g.acceptProduction := rfl
      exact ⟨_, .node implicit (.cons derives .nil)⟩
  · exact derivable p rule

/-- **Parsing is complete.** For every grammar without reserved names in which every nonterminal derives some
text, and whose table has no conflicts: the run on every text followed by its only end mark ends, with what the
bounded parser returns; on the text of a derivation tree of the start symbol the parser returns the fold of the
tree, which is a value if no action refuses its arguments; and no two derivation trees have the same text. -/
theorem parse_complete (plain : g.Unreserved) (derivable : ∀ p ∈ g.rules, ∃ tree, g.Derives p.left tree)
    (built : Table.of g = .ok t) (unambiguous : t.conflicts = []) (leaf : Token → α) (absent : α)
    (action? : Nat → Option (List α → Except ε α)) {e : Token} (isEnd : e.kind = endSymbol) :
    (∀ body : List Token, (∀ token ∈ body, token.kind ≠ endSymbol) →
      t.Ends (.ofActions leaf absent action?) ⟨[], body ++ [e]⟩
        (t.parse (.ofActions leaf absent action?) (body ++ [e]))) ∧
      (∀ tree, g.Derives g.start tree →
        t.parse (.ofActions leaf absent action?) (tree.yield ++ [e]) =
          (tree.fold (.ofActions leaf absent action?)).mapError .refused) ∧
      ((∀ p action, action? p = some action → ∀ values, ∃ value, action values = .ok value) →
        ∀ tree, g.Derives g.start tree → ∃ value,
          tree.fold (.ofActions leaf absent action?) = .ok value ∧
            t.parse (.ofActions leaf absent action?) (tree.yield ++ [e]) = .ok value) ∧
      (∀ tree other, g.Derives g.start tree → g.Derives g.start other → tree.yield = other.yield →
        tree = other) := by
  have made := Table.made_of built
  have decided : Decided g t := ⟨plain, made, unambiguous, exists_derives plain made.start_mem derivable⟩
  have parsed : ∀ tree, g.Derives g.start tree →
      t.parse (.ofActions leaf absent action?) (tree.yield ++ [e]) =
        (tree.fold (.ofActions leaf absent action?)).mapError .refused :=
    fun tree derives => parse_eq_of_ends decided (ends_of_derives decided _ derives isEnd)
  refine ⟨fun body _ => ?_, parsed, fun total tree derives => ?_, fun tree other derives derivesOther same =>
    derives.unique decided derivesOther same⟩
  · obtain ⟨outcome, within⟩ := exists_endsWithin_parse decided (.ofActions leaf absent action?) (body ++ [e])
    rw [parse_eq_of_ends decided ⟨_, within⟩]
    exact ⟨_, within⟩
  · have totalNode : ∀ p values, ∃ value,
        (Semantics.ofActions leaf absent action?).node p values = .ok value := by
      intro p values
      unfold Semantics.ofActions
      dsimp only
      cases acts : action? p with
      | none => exact ⟨_, rfl⟩
      | some action => exact total p action acts values
    obtain ⟨value, folded⟩ := tree.exists_fold totalNode
    exact ⟨value, folded, by rw [parsed tree derives, folded]; rfl⟩

/-- The derivation tree of the sum of `1` and `2`. -/
def sumTree : Tree := .node 1 [.node 2 [.leaf ⟨"x", "1"⟩], .leaf ⟨"+", "+"⟩, .leaf ⟨"x", "2"⟩]

theorem derives_sumTree : sumGrammar.Derives "Sum" sumTree := by
  have notLeft : "x" ∉ sumGrammar.nonterminals ∧ "+" ∉ sumGrammar.nonterminals := by decide
  have term : ∀ text, sumGrammar.Derives (Token.mk "x" text).kind (.leaf ⟨"x", text⟩) :=
    fun _ => .leaf notLeft.1
  have plus : sumGrammar.Derives (Token.mk "+" "+").kind (.leaf ⟨"+", "+"⟩) := .leaf notLeft.2
  have single : sumGrammar.productions[2]? = some ⟨"Sum", ["x"], List.cons_ne_nil _ _⟩ := rfl
  have sum : sumGrammar.productions[1]? = some ⟨"Sum", ["Sum", "+", "x"], List.cons_ne_nil _ _⟩ := rfl
  have one : sumGrammar.Derives "Sum" (.node 2 [.leaf ⟨"x", "1"⟩]) := .node single (.cons (term "1") .nil)
  exact .node sum (.cons one (.cons plus (.cons (term "2") .nil)))

theorem derivable_sumGrammar : ∀ p ∈ sumGrammar.rules, ∃ tree, sumGrammar.Derives p.left tree := by
  intro p member
  have left : p.left = "Sum" := by
    rcases List.mem_cons.mp member with rfl | member
    · rfl
    · rw [List.mem_singleton.mp member]
  exact ⟨sumTree, left ▸ derives_sumTree⟩

/-- What a parser of sums makes of the sum of `1` and `2`. -/
theorem parse_sumTree {t : Table} (built : Table.of sumGrammar = .ok t) (unambiguous : t.conflicts = [])
    {α ε : Type} (semantics : Semantics α ε) :
    t.parse semantics (sumTree.yield ++ [.end]) = (sumTree.fold semantics).mapError .refused := by
  have made := Table.made_of built
  have decided : Decided sumGrammar t :=
    ⟨unreserved_sumGrammar, made, unambiguous, exists_derives unreserved_sumGrammar made.start_mem derivable_sumGrammar⟩
  exact parse_eq_of_ends decided (ends_of_derives decided _ derives_sumTree rfl)

theorem parse_complete_sum : ∃ t, Table.of sumGrammar = .ok t ∧
    t.Ends (.ofActions Token.text "" bracketed) ⟨[], sumText ++ [.end]⟩
      (t.parse (.ofActions Token.text "" bracketed) (sumText ++ [.end])) ∧
    t.parse (.ofActions Token.text "" bracketed) (sumTree.yield ++ [.end]) = .ok "(1+2)" := by
  obtain ⟨t, built, unambiguous⟩ := exists_table_sumGrammar
  have isEnd : Token.end.kind = endSymbol := rfl
  obtain ⟨ends, parsed, _⟩ := parse_complete unreserved_sumGrammar derivable_sumGrammar built unambiguous Token.text ""
    bracketed isEnd
  refine ⟨t, built, ends sumText (by decide), ?_⟩
  have folded : sumTree.fold (.ofActions Token.text "" bracketed) = .ok "(1+2)" := by cbv
  rw [parsed sumTree derives_sumTree, folded]
  rfl

end XPathAnnotator.Grammar
