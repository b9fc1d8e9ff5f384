/-
**How parsing fails.**

A parser fails at a token for which its table has no action, or because the value of a production is refused. In the
second case the values on the stack are those of derivation trees, so the refusal is the value of a derivation tree
too: nothing is refused that is not refused in a tree.

In the first case the right token is blamed. Whatever a parser has read can be completed to a sentence, and in a table
without conflicts it has an action for every token that some sentence goes on with. So the token that it blames is the
first one that no sentence goes on with, even where productions were applied backwards before the table had no action
for it.

* `Parses.failed` — a step that fails;
* `parse_error` — **the two ways in which parsing fails**;
* `Stacked.hosts` — each item of the top state belongs to a derivation whose text begins with the trees below it;
* `Parses.begins` — the tokens read begin a sentence;
* `Table.Runs.replace` — a run depends on the tokens read and the one after them only;
* `parse_unexpected` — **the tokens before the blamed one begin a sentence, with it they do not**.
-/

import Mathlib
import XPathAnnotator.Proofs.Grammar.Completeness

namespace XPathAnnotator.Grammar

open Table (top)

variable {g : Grammar} {α ε : Type} {semantics : Semantics α ε} {t : Table}

/-! ### Two ways to fail -/

/-- A failure that blames a token of a text, or that has the refusal of a derivation tree. -/
def Blames (g : Grammar) (semantics : Semantics α ε) (tokens : List Token) (cause : ParseFailure ε) : Prop :=
  (∃ token ∈ tokens, cause = .unexpected token) ∨
    ∃ s tree reason, g.Derives s tree ∧ tree.fold semantics = .error reason ∧ cause = .refused reason

/-- **A step that fails** has no action for its token, or a production refuses the values on the stack. -/
theorem Parses.failed (made : Table.Made g t) (plain : g.Unreserved) {body : List Token} {e : Token}
    {c : Configuration α} {symbols : List String} {trees : List Tree} {rest : List Token}
    (parses : g.Parses semantics body e c symbols trees rest) {cause : ParseFailure ε}
    (stepped : t.step semantics c = .failed cause) : Blames g semantics (body ++ [e]) cause := by
  obtain ⟨stack, tokens⟩ := c
  obtain ⟨stacked, consumed, rfl⟩ := parses
  obtain ⟨token, tail, shape⟩ := List.exists_cons_of_ne_nil (List.append_ne_nil_of_right_ne_nil rest
    (List.cons_ne_nil e []))
  dsimp only at stacked shape
  have inText : token ∈ body ++ [e] := by
    have suffix : token ∈ rest ++ [e] := shape ▸ List.mem_cons_self
    rw [← consumed, List.append_assoc]
    exact List.mem_append_right _ suffix
  have moves := stacked.moves made plain token tail
  rw [← shape, stepped] at moves
  cases moves with
  | unexpected => exact .inl ⟨token, inText, rfl⟩
  | refused found matched refused =>
    obtain ⟨derives, folded⟩ := stacked.node found matched
    refine .inr ⟨_, _, _, derives, ?_, rfl⟩
    rw [Tree.fold, folded]
    exact refused

/-- **The two ways in which parsing fails**: a token is unexpected, or a derivation tree is refused. -/
theorem parse_error (decided : Decided g t) {body : List Token} {e : Token} (ends : e.kind = endSymbol)
    {cause : ParseFailure ε} (failed : t.parse semantics (body ++ [e]) = .error cause) :
    Blames g semantics (body ++ [e]) cause := by
  obtain ⟨outcome, within⟩ := exists_endsWithin_parse decided semantics (body ++ [e])
  rw [parse_eq_of_ends decided ⟨_, within⟩] at failed
  subst failed
  obtain ⟨n, _, last, runs, finished⟩ := within
  obtain ⟨symbols, trees, rest, parses⟩ := exists_parses decided.made decided.plain ends runs
  exact parses.failed decided.made decided.plain (StepResult.outcome?_eq_some finished)

/-! ### Sentences -/

/-- A row of tokens is a sentence: the text of a tree of the start symbol. -/
def Sentence (g : Grammar) (tokens : List Token) : Prop :=
  ∃ tree, g.Derives g.start tree ∧ tree.yield = tokens

/-- A row of tokens begins some sentence. -/
def Begins (g : Grammar) (tokens : List Token) : Prop :=
  ∃ rest, g.Sentence (tokens ++ rest)

/-! ### Completing what was read -/

/-- Each tree of a symbol fits behind the given trees, the latest first, in a tree of the implicit symbol. -/
def Hosts (g : Grammar) (trees : List Tree) (s : String) : Prop :=
  ∀ tree, g.Derives s tree → ∃ whole rest, g.Derives acceptSymbol whole ∧
    whole.yield = Tree.yieldAll trees.reverse ++ tree.yield ++ rest

/-- The trees read for the symbols before a dot, completed by some trees for the symbols after it. -/
theorem Hosts.complete (texts : ∀ s ∈ g.nonterminals, ∃ tree, g.Derives s tree) {trees : List Tree} {p dot : Nat}
    {production : Production} (found : g.productions[p]? = some production)
    (hosts : g.Hosts (trees.drop dot) production.left)
    (read : g.DerivesAll (production.right.take dot) (trees.take dot).reverse) (count : Nat) {middle : List Tree}
    (given : g.DerivesAll ((production.right.drop dot).take count) middle) :
    ∃ whole rest, g.Derives acceptSymbol whole ∧
      whole.yield = Tree.yieldAll trees.reverse ++ Tree.yieldAll middle ++ rest := by
  obtain ⟨last, derivesLast⟩ : ∃ last, g.DerivesAll ((production.right.drop dot).drop count) last :=
    exists_derivesAll fun s _ => exists_derives_of_nonterminals texts s
  have derives : g.Derives production.left (.node p ((trees.take dot).reverse ++ (middle ++ last))) := by
    refine .node found (derivesAll_iff.mpr ?_)
    rw [← List.take_append_drop dot production.right,
      ← List.take_append_drop count (production.right.drop dot)]
    exact List.rel_append (derivesAll_iff.mp read)
      (List.rel_append (derivesAll_iff.mp given) (derivesAll_iff.mp derivesLast))
  obtain ⟨whole, rest, derivesWhole, text⟩ := hosts _ derives
  refine ⟨whole, Tree.yieldAll last ++ rest, derivesWhole, ?_⟩
  have split : trees.reverse = (trees.drop dot).reverse ++ (trees.take dot).reverse := by
    rw [← List.reverse_append, List.take_append_drop]
  rw [text, Tree.yield, split]
  simp only [Tree.yieldAll_append, List.append_assoc]

/-- A tree of the implicit symbol has the text of a sentence. -/
theorem Derives.sentence (plain : g.Unreserved) {whole : Tree} (derives : g.Derives acceptSymbol whole) :
    g.Sentence whole.yield := by
  generalize named : acceptSymbol = s at derives
  cases derives with
  | leaf notLeft =>
    refine absurd ?_ notLeft
    rw [← named]
    exact left_mem_nonterminals (p := g.acceptProduction) (mem_productions.mpr (.inl rfl))
  | @node p production children found derivesAll =>
    obtain rfl : production = g.acceptProduction := by
      refine (mem_productions.mp (List.mem_of_getElem? found)).resolve_right fun rule => ?_
      exact plain.left production rule (by rw [← named]; decide)
    cases derivesAll with
    | @cons _ _ tree _ derives none =>
      cases none
      exact ⟨tree, derives, by simp [Tree.yield, Tree.yieldAll]⟩

namespace Stacked

variable {stack : List (Nat × α)} {symbols : List String} {trees : List Tree}

/-- The trees of the symbols before the dot of an item of the top state. -/
theorem read (plain : g.Unreserved) (stacked : g.Stacked semantics stack symbols trees) {kernel : List Item}
    (atState : g.automaton.kernels[top stack]? = some kernel) {item : Item}
    (member : item ∈ g.numbers.itemsOf kernel) {production : Production}
    (found : g.productions[item.production]? = some production) :
    g.DerivesAll (production.right.take item.dot) (trees.take item.dot).reverse := by
  obtain ⟨_, matched, _⟩ := stacked.item plain atState member found
  have derives := List.forall₂_take item.dot stacked.derives
  rw [matched, ← List.forall₂_reverse_iff, List.reverse_reverse] at derives
  exact derivesAll_iff.mpr derives

/-- What has its dot before a symbol hosts the symbol behind all trees of the stack. -/
theorem hosts_next (plain : g.Unreserved) (texts : ∀ s ∈ g.nonterminals, ∃ tree, g.Derives s tree)
    (stacked : g.Stacked semantics stack symbols trees) {kernel : List Item}
    (atState : g.automaton.kernels[top stack]? = some kernel) {item : Item}
    (member : item ∈ g.numbers.itemsOf kernel) {production : Production}
    (found : g.productions[item.production]? = some production)
    (hosts : g.Hosts (trees.drop item.dot) production.left) {s : String} (inSymbols : s ∈ g.symbols)
    (next : g.numbers.nextSymbol? item = some (g.code s)) : g.Hosts trees s := by
  intro tree derives
  have atDot := right_getElem?_of_next inSymbols next found
  have first : (production.right.drop item.dot).take 1 = [s] := by
    rw [List.take_one, List.head?_drop, atDot]
    rfl
  have given : g.DerivesAll ((production.right.drop item.dot).take 1) [tree] := by
    rw [first]
    exact .cons derives .nil
  obtain ⟨whole, rest, derivesWhole, text⟩ :=
    hosts.complete texts found (stacked.read plain atState member found) 1 given
  refine ⟨whole, rest, derivesWhole, ?_⟩
  rw [text]
  simp [Tree.yieldAll]

/-- If the kernel items of the top state belong to derivations behind the stack, so do its other items. -/
theorem hosts_of_kernel (plain : g.Unreserved) (texts : ∀ s ∈ g.nonterminals, ∃ tree, g.Derives s tree)
    (stacked : g.Stacked semantics stack symbols trees) {kernel : List Item}
    (atState : g.automaton.kernels[top stack]? = some kernel)
    (ofKernel : ∀ item ∈ kernel, ∀ production, g.productions[item.production]? = some production →
      g.Hosts (trees.drop item.dot) production.left) {item : Item} (member : item ∈ g.numbers.itemsOf kernel)
    {production : Production} (found : g.productions[item.production]? = some production) :
    g.Hosts (trees.drop item.dot) production.left := by
  -- What the kernel reaches comes next in a kernel item, or first in a production that it reaches.
  have reached : ∀ a, g.numbers.Reaches kernel a → ∀ s ∈ g.symbols, g.code s = a → g.Hosts trees s := by
    intro a reaches
    induction reaches with
    | kernel inKernel next _ =>
      rintro s inSymbols rfl
      obtain ⟨p, atItem, _⟩ := Numbered.nextSymbol?_eq_some.mp next
      obtain ⟨production, found, _⟩ := exists_production atItem
      exact stacked.hosts_next plain texts atState (Numbered.mem_itemsOf.mpr (.inl inKernel)) found
        (ofKernel _ inKernel production found) inSymbols next
    | @production k p _ atItem left head _ ih =>
      rintro s inSymbols rfl
      obtain ⟨production, found, rfl⟩ := exists_production atItem
      have isLeft := left_mem_nonterminals (List.mem_of_getElem? found)
      have hosts : g.Hosts (trees.drop 0) production.left :=
        ih production.left (mem_symbols.mpr (.inl isLeft)) rfl
      have inState : ⟨k, 0⟩ ∈ g.numbers.itemsOf kernel := Numbered.mem_itemsOf.mpr (.inr ⟨rfl, _, atItem, left⟩)
      refine stacked.hosts_next plain texts atState inState found hosts inSymbols ?_
      exact Numbered.nextSymbol?_eq_some.mpr ⟨_, atItem, by rw [← List.head?_eq_getElem?, head]⟩
  rcases Numbered.mem_itemsOf.mp member with inKernel | ⟨atStart, p, atItem, reaches⟩
  · exact ofKernel item inKernel production found
  · obtain rfl := Option.some.inj ((numbers_productions found).symm.trans atItem)
    have isLeft := left_mem_nonterminals (List.mem_of_getElem? found)
    rw [atStart]
    exact reached _ reaches production.left (mem_symbols.mpr (.inl isLeft)) rfl

/-- **Each item of the top state belongs to a derivation** whose text begins with the trees below its production. -/
theorem hosts (plain : g.Unreserved) (texts : ∀ s ∈ g.nonterminals, ∃ tree, g.Derives s tree)
    (stacked : g.Stacked semantics stack symbols trees) {kernel : List Item}
    (atState : g.automaton.kernels[top stack]? = some kernel) {item : Item}
    (member : item ∈ g.numbers.itemsOf kernel) {production : Production}
    (found : g.productions[item.production]? = some production) :
    g.Hosts (trees.drop item.dot) production.left := by
  have explored := explored_automaton plain
  induction stacked generalizing kernel item production with
  | nil =>
    have empty : g.Stacked semantics [] [] [] := .nil
    refine hosts_of_kernel plain texts empty atState (fun item inKernel production found => ?_) member found
    obtain rfl := Option.some.inj (explored.start.symm.trans atState)
    obtain rfl := List.mem_singleton.mp inKernel
    obtain rfl : g.acceptProduction = production := Option.some.inj found
    exact fun tree derives => ⟨tree, [], derives, (List.append_nil _).symm⟩
  | @cons stack symbols trees s tree value k below inSymbols target derives folds ih =>
    refine hosts_of_kernel plain texts (below.cons inSymbols target derives folds) atState
      (fun item inKernel production found => ?_) member found
    obtain ⟨before, atBefore, _⟩ := explored.target target
    obtain ⟨origin, inBefore, _, rfl⟩ := (explored.mem_target_iff atBefore target atState).mp inKernel
    exact ih atBefore inBefore found

/-- The top state has an item. -/
theorem exists_item (plain : g.Unreserved) (stacked : g.Stacked semantics stack symbols trees) :
    ∃ kernel item, g.automaton.kernels[top stack]? = some kernel ∧ item ∈ g.numbers.itemsOf kernel := by
  cases stacked with
  | nil =>
    exact ⟨_, ⟨0, 0⟩, (explored_automaton plain).start,
      Numbered.mem_itemsOf.mpr (.inl (List.mem_singleton_self _))⟩
  | cons _ _ target _ _ =>
    obtain ⟨_, _, _, nonempty, reached⟩ := (explored_automaton plain).target target
    obtain ⟨item, member⟩ := List.exists_mem_of_ne_nil _ nonempty
    exact ⟨_, item, reached, Numbered.mem_itemsOf.mpr (.inl member)⟩

/-- The texts of the trees on a stack begin a sentence. -/
theorem begins (plain : g.Unreserved) (texts : ∀ s ∈ g.nonterminals, ∃ tree, g.Derives s tree)
    (stacked : g.Stacked semantics stack symbols trees) : g.Begins (Tree.yieldAll trees.reverse) := by
  obtain ⟨kernel, item, atState, member⟩ := stacked.exists_item plain
  obtain ⟨p, atItem, _⟩ := valid_of_mem_itemsOf plain atState member
  obtain ⟨production, found, _⟩ := exists_production atItem
  obtain ⟨whole, rest, derives, text⟩ := (stacked.hosts plain texts atState member found).complete texts found
    (stacked.read plain atState member found) 0 .nil
  refine ⟨rest, ?_⟩
  rw [Tree.yieldAll, List.append_nil] at text
  rw [← text]
  exact derives.sentence plain

end Stacked

/-- The tokens read begin a sentence. -/
theorem Parses.begins (plain : g.Unreserved) (texts : ∀ s ∈ g.nonterminals, ∃ tree, g.Derives s tree)
    {body : List Token} {e : Token} {c : Configuration α} {symbols : List String} {trees : List Tree}
    {rest : List Token} (parses : g.Parses semantics body e c symbols trees rest) {read : List Token}
    (split : read ++ c.tokens = body ++ [e]) : g.Begins read := by
  have same : read ++ c.tokens = Tree.yieldAll trees.reverse ++ c.tokens := by
    rw [split, parses.tokens_eq, ← parses.consumed, List.append_assoc]
  rw [List.append_cancel_right same]
  exact parses.stacked.begins plain texts

/-! ### What a run depends on -/

namespace Table

/-- **What a step does depends on the stack and the next token only**: it reads the token, leaves it, accepts, or
fails, and then blames no other token. -/
theorem step_cases (t : Table) (semantics : Semantics α ε) (stack : List (Nat × α)) (token : Token) :
    (∃ stack', ∀ rest, t.step semantics ⟨stack, token :: rest⟩ = .next ⟨stack', rest⟩) ∨
      (∃ stack', ∀ rest, t.step semantics ⟨stack, token :: rest⟩ = .next ⟨stack', token :: rest⟩) ∨
      (∃ value, ∀ rest, t.step semantics ⟨stack, token :: rest⟩ = .accepted value) ∨
      ∃ cause, (∀ other, cause = .unexpected other → other = token) ∧
        ∀ rest, t.step semantics ⟨stack, token :: rest⟩ = .failed cause := by
  have blames : ∀ other, (ParseFailure.unexpected token : ParseFailure ε) = .unexpected other → other = token :=
    fun _ same => (ParseFailure.unexpected.inj same).symm
  simp only [step_eq]
  rcases t.action? (top stack) token.kind with _ | (j | p | _)
  · exact .inr (.inr (.inr ⟨_, blames, fun _ => rfl⟩))
  · exact .inl ⟨_, fun _ => rfl⟩
  · cases found : t.productions[p]? with
    | none =>
      simp only [reduce, found]
      exact .inr (.inr (.inr ⟨_, blames, fun _ => rfl⟩))
    | some production =>
      simp only [reduce_eq found]
      cases semantics.node p ((stack.take production.right.length).map (·.2)).reverse with
      | error reason => exact .inr (.inr (.inr ⟨.refused reason, by simp, fun _ => rfl⟩))
      | ok value =>
        cases t.goto? (top (stack.drop production.right.length)) production.left with
        | none => exact .inr (.inr (.inr ⟨_, blames, fun _ => rfl⟩))
        | some j => exact .inr (.inl ⟨_, fun _ => rfl⟩)
  · cases stack with
    | nil => exact .inr (.inr (.inr ⟨.exhausted, by simp, fun _ => rfl⟩))
    | cons entry _ => exact .inr (.inr (.inl ⟨entry.2, fun _ => rfl⟩))

/-- A step that fails does so whatever comes after the next token. -/
theorem step_failed {stack : List (Nat × α)} {token : Token} {tokens : List Token} {cause : ParseFailure ε}
    (stepped : t.step semantics ⟨stack, token :: tokens⟩ = .failed cause) (more : List Token) :
    t.step semantics ⟨stack, token :: more⟩ = .failed cause := by
  rcases step_cases t semantics stack token with ⟨_, does⟩ | ⟨_, does⟩ | ⟨_, does⟩ | ⟨_, _, does⟩
  · exact absurd ((does tokens).symm.trans stepped) (by simp)
  · exact absurd ((does tokens).symm.trans stepped) (by simp)
  · exact absurd ((does tokens).symm.trans stepped) (by simp)
  · rw [does more, ← does tokens, stepped]

/-- The token that is unexpected is the next one. -/
theorem head?_of_unexpected {c : Configuration α} {token : Token}
    (stepped : t.step semantics c = .failed (.unexpected token)) : c.tokens.head? = some token := by
  obtain ⟨stack, tokens⟩ := c
  cases tokens with
  | nil => exact absurd stepped (by simp [Table.step])
  | cons next tokens =>
    rcases step_cases t semantics stack next with ⟨_, does⟩ | ⟨_, does⟩ | ⟨_, does⟩ | ⟨cause, blames, does⟩
    · exact absurd ((does tokens).symm.trans stepped) (by simp)
    · exact absurd ((does tokens).symm.trans stepped) (by simp)
    · exact absurd ((does tokens).symm.trans stepped) (by simp)
    · have same := StepResult.failed.inj ((does tokens).symm.trans stepped)
      rw [blames token same]
      rfl

/-- **A run depends on the tokens read and the one after them only.** -/
theorem Runs.replace {n : Nat} {c d : Configuration α} (runs : t.Runs semantics n c d) :
    ∃ read, c.tokens = read ++ d.tokens ∧ ∀ other : List Token, other.head? = d.tokens.head? →
      t.Runs semantics n ⟨c.stack, read ++ other⟩ ⟨d.stack, other⟩ := by
  induction runs with
  | done => exact ⟨[], rfl, fun other _ => .done⟩
  | @step n first second last stepped runs ih =>
    obtain ⟨stack, tokens⟩ := first
    obtain ⟨read, split, follows⟩ := ih
    cases tokens with
    | nil => exact absurd stepped (by simp [Table.step])
    | cons token tokens =>
      rcases step_cases t semantics stack token with ⟨_, does⟩ | ⟨_, does⟩ | ⟨_, does⟩ | ⟨_, _, does⟩
      · obtain rfl := StepResult.next.inj ((does tokens).symm.trans stepped)
        dsimp only at split
        refine ⟨token :: read, congrArg (token :: ·) split, fun other same => ?_⟩
        exact .step (does (read ++ other)) (follows other same)
      · obtain rfl := StepResult.next.inj ((does tokens).symm.trans stepped)
        refine ⟨read, split, fun other same => ?_⟩
        -- What is read and what replaces the rest begin with the token as well.
        obtain ⟨more, shape⟩ : ∃ more, read ++ other = token :: more := by
          have head := congrArg List.head? split
          rw [List.head?_append, ← same, ← List.head?_append] at head
          exact List.head?_eq_some_iff.mp head.symm
        have later := follows other same
        rw [shape] at later ⊢
        exact .step (does more) later
      · exact absurd ((does tokens).symm.trans stepped) (by simp)
      · exact absurd ((does tokens).symm.trans stepped) (by simp)

/-- The run on a row of tokens blames the token at an index: it comes to have read those before it and then
finds it unexpected. -/
def BlamesAt (t : Table) (semantics : Semantics α ε) (tokens : List Token) (i : Nat) : Prop :=
  ∃ n stack token rest, t.Runs semantics n ⟨[], tokens⟩ ⟨stack, token :: rest⟩ ∧
    tokens.drop i = token :: rest ∧
      t.step semantics ⟨stack, token :: rest⟩ = .failed (.unexpected token)

end Table

/-! ### Blame -/

/-- **No sentence goes on with a token that a run blames**: on the sentence the parser would come to the same
stack before the same token. -/
theorem Decided.not_blamed (decided : Decided g t) {tokens : List Token} {n : Nat} {stack : List (Nat × α)}
    {token : Token} {rest : List Token} (runs : t.Runs semantics n ⟨[], tokens⟩ ⟨stack, token :: rest⟩)
    (failed : t.step semantics ⟨stack, token :: rest⟩ = .failed (.unexpected token)) {read : List Token}
    (split : tokens = read ++ token :: rest) {body more : List Token} (sentence : g.Sentence body) {e : Token}
    (isEnd : e.kind = endSymbol) : body ++ [e] ≠ read ++ token :: more := by
  intro same
  obtain ⟨tree, derives, rfl⟩ := sentence
  obtain ⟨read', split', follows⟩ := runs.replace
  obtain rfl : read' = read := List.append_cancel_right (split'.symm.trans split)
  have blamed : t.Ends semantics ⟨[], read' ++ token :: more⟩ (.error (.unexpected token)) :=
    .prepend (follows (token :: more) rfl) (.of_step (by rw [Table.step_failed failed more]; rfl))
  have ends := ends_of_derives decided semantics derives isEnd
  rw [same] at ends
  have outcome := ends.unique blamed
  cases folded : tree.fold semantics with
  | ok value =>
    rw [folded] at outcome
    exact absurd outcome (by simp [Except.mapError])
  | error cause =>
    rw [folded] at outcome
    exact absurd outcome (by simp [Except.mapError])

/-- The parser fails for a token if its run blames the token at some index. -/
theorem Decided.parse_unexpected_iff (decided : Decided g t) {tokens : List Token} {token : Token} :
    t.parse semantics tokens = .error (.unexpected token) ↔
      ∃ i, tokens[i]? = some token ∧ t.BlamesAt semantics tokens i := by
  constructor
  · intro parsed
    obtain ⟨outcome, within⟩ := exists_endsWithin_parse decided semantics tokens
    rw [parse_eq_of_ends decided ⟨_, within⟩] at parsed
    subst parsed
    obtain ⟨n, _, ⟨stack, left⟩, runs, finished⟩ := within
    have failed : t.step semantics ⟨stack, left⟩ = .failed (.unexpected token) :=
      StepResult.outcome?_eq_some finished
    obtain ⟨rest, rfl⟩ := List.head?_eq_some_iff.mp (Table.head?_of_unexpected failed)
    obtain ⟨read, split, _⟩ := runs.replace
    dsimp only at split
    refine ⟨read.length, ?_, n, stack, token, rest, runs, ?_, failed⟩
    · rw [split]
      simp
    · rw [split]
      simp
  · rintro ⟨i, atIndex, n, stack, token', rest, runs, left, failed⟩
    obtain rfl : token' = token := by
      have head := congrArg List.head? left
      rw [List.head?_drop, atIndex] at head
      exact (Option.some.inj head).symm
    exact parse_eq_of_ends decided (.prepend runs (.of_step (by rw [failed]; rfl)))

/-- **The right token is blamed.** For every grammar without reserved names in which every nonterminal derives some
text, and whose table has no conflicts, and every row of tokens that ends with the end mark: the parser fails for
an unexpected token exactly if its run blames the token at some index; then the tokens before the index begin a
sentence, and with the token they do not. If the token is an end mark, those before it are no sentence. -/
theorem parse_unexpected (plain : g.Unreserved) (derivable : ∀ p ∈ g.rules, ∃ tree, g.Derives p.left tree)
    (built : Table.of g = .ok t) (unambiguous : t.conflicts = []) (semantics : Semantics α ε) (body : List Token)
    {e : Token} (isEnd : e.kind = endSymbol) :
    (∀ token, t.parse semantics (body ++ [e]) = .error (.unexpected token) ↔
      ∃ i, (body ++ [e])[i]? = some token ∧ t.BlamesAt semantics (body ++ [e]) i) ∧
    ∀ i token, (body ++ [e])[i]? = some token → t.BlamesAt semantics (body ++ [e]) i →
      g.Begins ((body ++ [e]).take i) ∧ ¬ g.Begins ((body ++ [e]).take (i + 1)) ∧
        (token.kind = endSymbol → ¬ g.Sentence ((body ++ [e]).take i)) := by
  have made := Table.made_of built
  have texts := exists_derives plain made.start_mem derivable
  have decided : Decided g t := ⟨plain, made, unambiguous, texts⟩
  refine ⟨fun token => decided.parse_unexpected_iff, fun i token atIndex blamed => ?_⟩
  generalize whole : body ++ [e] = tokens at atIndex blamed
  obtain ⟨n, stack, token', rest, runs, left, failed⟩ := blamed
  obtain rfl : token' = token := by
    have head := congrArg List.head? left
    rw [List.head?_drop, atIndex] at head
    exact (Option.some.inj head).symm
  have split : tokens = tokens.take i ++ token' :: rest := by rw [← left, List.take_append_drop]
  refine ⟨?_, ?_, fun atEnd sentence => ?_⟩
  · subst whole
    obtain ⟨symbols, trees, unread, parses⟩ := exists_parses made plain isEnd runs
    exact parses.begins plain texts split.symm
  · rintro ⟨more, sentence⟩
    have apart : (tokens.take (i + 1) ++ more) ++ [.end] ≠ tokens.take i ++ token' :: (more ++ [.end]) :=
      decided.not_blamed runs failed split sentence rfl
    rw [List.take_add_one, atIndex] at apart
    simp at apart
  · have apart : tokens.take i ++ [token'] ≠ tokens.take i ++ [token'] :=
      decided.not_blamed runs failed split sentence atEnd
    exact apart rfl

/-- The cells of the table of sums. -/
theorem action_sumGrammar {t : Table} (made : Table.Made sumGrammar t) :
    t.action = #[#[none, some (.shift 2), none], #[some (.shift 3), none, some .accept],
      #[some (.reduce 2), none, some (.reduce 2)], #[none, some (.shift 4), none],
      #[some (.reduce 1), none, some (.reduce 1)]] := by
  have rows := made.rows
  change Table.rowsOf sumGrammar.tableSource 0 #[] []
    (Grammar.lookaheads sumGrammar.tableSource.numbered sumGrammar.tableSource.automaton).toList = _ at rows
  rw [lookaheads_sumGrammar, tableSource_sumGrammar] at rows
  exact (congrArg Prod.fst (Except.ok.inj rows)).symm

/-- A sum that lacks its second part. -/
def brokenSum : List Token := [⟨"x", "1"⟩, ⟨"+", "+"⟩, ⟨"+", "+"⟩, ⟨"x", "2"⟩]

theorem blamesAt_brokenSum {t : Table} (made : Table.Made sumGrammar t) :
    t.BlamesAt (.ofActions Token.text "" bracketed) (brokenSum ++ [.end]) 2 := by
  have action := action_sumGrammar made
  have goto : t.goto = #[#[none, some 1], #[none, none], #[none, none], #[none, none], #[none, none]] := by
    rw [made.goto_eq]
    decide +kernel
  have terminals : t.terminals = ["+", "x", "EOF"] := by
    rw [made.terminals_eq]
    decide
  have nonterminals : t.nonterminals = ["$accept", "Sum"] := by
    rw [made.nonterminals_eq]
    decide
  have productions := made.productions_eq
  obtain ⟨_, _, _, _, _, _, _, _, _, _⟩ := t
  dsimp only at action goto terminals nonterminals productions
  subst action goto terminals nonterminals productions
  refine ⟨3, [(3, "+"), (1, "1")], ⟨"+", "+"⟩, [⟨"x", "2"⟩, .end], ?_, rfl, rfl⟩
  exact .step rfl (.step rfl (.one rfl))

theorem parse_unexpected_sum : ∃ t, Table.of sumGrammar = .ok t ∧
    t.parse (.ofActions Token.text "" bracketed) (brokenSum ++ [.end]) = .error (.unexpected ⟨"+", "+"⟩) ∧
    sumGrammar.Begins [⟨"x", "1"⟩, ⟨"+", "+"⟩] ∧
    ¬ sumGrammar.Begins [⟨"x", "1"⟩, ⟨"+", "+"⟩, ⟨"+", "+"⟩] := by
  obtain ⟨t, built, unambiguous⟩ := exists_table_sumGrammar
  have isEnd : Token.end.kind = endSymbol := rfl
  have blamed := blamesAt_brokenSum (Table.made_of built)
  obtain ⟨fails, blames⟩ := parse_unexpected unreserved_sumGrammar derivable_sumGrammar built unambiguous
    (.ofActions Token.text "" bracketed) brokenSum isEnd
  obtain ⟨begins, stops, _⟩ := blames 2 ⟨"+", "+"⟩ rfl blamed
  exact ⟨t, built, (fails _).mpr ⟨2, rfl, blamed⟩, begins, stops⟩

end XPathAnnotator.Grammar
