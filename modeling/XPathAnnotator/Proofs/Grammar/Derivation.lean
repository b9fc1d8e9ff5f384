/-
**Derivation trees.**

A derivation tree has tokens at its leaves and productions at its nodes. `Derives` says that a tree derives a
symbol of a grammar, `Tree.yield` is the row of its tokens, and `Tree.fold` is its value: that of the leaves
and nodes from the bottom up and from left to right, up to the first one that is refused.

* `Semantics.ofActions` — values where productions may lack an action;
* `Derives.exists_first` — a text of a symbol begins with one of its first terminals.
-/

import Mathlib
import XPathAnnotator.Grammar.Parser
import XPathAnnotator.Proofs.Grammar.First

namespace XPathAnnotator.Grammar

/-- A derivation tree: a token, or a production with the trees of its right side. -/
inductive Tree where
  | leaf (token : Token)
  | node (production : Nat) (children : List Tree)

namespace Tree

mutual

/-- The tokens of a tree from left to right. -/
def yield : Tree → List Token
  | .leaf token => [token]
  | .node _ children => yieldAll children

/-- The tokens of a row of trees. -/
def yieldAll : List Tree → List Token
  | [] => []
  | tree :: trees => tree.yield ++ yieldAll trees

end

variable {α ε : Type}

mutual

/-- The value of a tree, or the first refusal on the way to it. -/
def fold (semantics : Semantics α ε) : Tree → Except ε α
  | .leaf token => .ok (semantics.leaf token)
  | .node p children =>
    match foldAll semantics children with
    | .error cause => .error cause
    | .ok values => semantics.node p values

/-- The values of a row of trees, or the first refusal on the way to them. -/
def foldAll (semantics : Semantics α ε) : List Tree → Except ε (List α)
  | [] => .ok []
  | tree :: trees =>
    match tree.fold semantics with
    | .error cause => .error cause
    | .ok value =>
      match foldAll semantics trees with
      | .error cause => .error cause
      | .ok values => .ok (value :: values)

end

/-- What holds of tokens, and of a node if it holds of its children, holds of every tree. -/
theorem induction {P : Tree → Prop} (leaf : ∀ token, P (.leaf token))
    (node : ∀ p children, (∀ child ∈ children, P child) → P (.node p children)) : ∀ tree, P tree := by
  refine fun tree => @Tree.rec P (fun children => ∀ child ∈ children, P child) leaf node ?_ ?_ tree
  · exact fun _ member => absurd member List.not_mem_nil
  · intro first rest holds restHolds child member
    rcases List.mem_cons.mp member with rfl | member
    · exact holds
    · exact restHolds child member

theorem yieldAll_append (trees more : List Tree) :
    yieldAll (trees ++ more) = yieldAll trees ++ yieldAll more := by
  induction trees with
  | nil => rfl
  | cons tree trees ih => simp [yieldAll, ih]

/-- The values of a row are those of its trees. -/
theorem foldAll_eq_ok {semantics : Semantics α ε} {trees : List Tree} {values : List α} :
    foldAll semantics trees = .ok values ↔
      List.Forall₂ (fun tree value => tree.fold semantics = .ok value) trees values := by
  induction trees generalizing values with
  | nil => simp [foldAll, eq_comm]
  | cons tree trees ih =>
    rw [foldAll]
    constructor
    · intro folded
      split at folded
      · exact absurd folded (by simp)
      · rename_i value first
        split at folded
        · exact absurd folded (by simp)
        · rename_i rest folds
          obtain rfl := Except.ok.inj folded
          exact .cons first (ih.mp folds)
    · rintro (_ | ⟨first, rest⟩)
      rw [first, ih.mpr rest]

end Tree

/-- How values are made where productions may have an action: a production without one has the value of its
first symbol. No production is without symbols, so the value `absent` is never used. -/
def Semantics.ofActions {α ε : Type} (leaf : Token → α) (absent : α)
    (action? : Nat → Option (List α → Except ε α)) : Semantics α ε :=
  { leaf := leaf
    node := fun p values =>
      match action? p with
      | some action => action values
      | none => .ok (values.headD absent) }

/-- The semantics whose values are the trees themselves. -/
def treeSemantics : Semantics Tree Empty :=
  { leaf := .leaf
    node := fun p children => .ok (.node p children) }

theorem fold_treeSemantics (tree : Tree) : tree.fold treeSemantics = .ok tree := by
  induction tree using Tree.induction with
  | leaf token => rfl
  | node p children ih =>
    have all : Tree.foldAll treeSemantics children = .ok children := by
      rw [Tree.foldAll_eq_ok, List.forall₂_same]
      exact ih
    rw [Tree.fold, all]
    rfl

mutual

/-- A tree derives a symbol: a token derives its terminal, a node the left side of its production if its
children derive the right side. -/
inductive Derives (g : Grammar) : String → Tree → Prop
  | leaf {token : Token} : token.kind ∉ g.nonterminals → Derives g token.kind (.leaf token)
  | node {p : Nat} {production : Production} {children : List Tree} :
      g.productions[p]? = some production → DerivesAll g production.right children →
        Derives g production.left (.node p children)

/-- A row of trees derives a row of symbols. -/
inductive DerivesAll (g : Grammar) : List String → List Tree → Prop
  | nil : DerivesAll g [] []
  | cons {s : String} {symbols : List String} {tree : Tree} {trees : List Tree} :
      Derives g s tree → DerivesAll g symbols trees → DerivesAll g (s :: symbols) (tree :: trees)

end

variable {g : Grammar}

theorem DerivesAll.length_eq {symbols : List String} {trees : List Tree}
    (derives : g.DerivesAll symbols trees) : symbols.length = trees.length := by
  induction trees generalizing symbols with
  | nil =>
    cases derives
    rfl
  | cons tree trees ih =>
    cases derives with
    | cons _ rest => simp [ih rest]

theorem derivesAll_iff {symbols : List String} {trees : List Tree} :
    g.DerivesAll symbols trees ↔ List.Forall₂ g.Derives symbols trees := by
  constructor
  · intro derives
    induction trees generalizing symbols with
    | nil =>
      cases derives
      exact .nil
    | cons tree trees ih =>
      cases derives with
      | cons first rest => exact .cons first (ih rest)
  · intro derives
    induction derives with
    | nil => exact .nil
    | cons first _ ih => exact .cons first ih

/-- A row of symbols that derive some text derives some text. -/
theorem exists_derivesAll {symbols : List String} (texts : ∀ s ∈ symbols, ∃ tree, g.Derives s tree) :
    ∃ trees, g.DerivesAll symbols trees := by
  induction symbols with
  | nil => exact ⟨[], .nil⟩
  | cons s symbols ih =>
    obtain ⟨tree, first⟩ := texts s List.mem_cons_self
    obtain ⟨trees, rest⟩ := ih fun other later => texts other (List.mem_cons_of_mem _ later)
    exact ⟨tree :: trees, .cons first rest⟩

theorem exists_derives_of_terminal {s : String} (notLeft : s ∉ g.nonterminals) : ∃ tree, g.Derives s tree :=
  ⟨.leaf ⟨s, ""⟩, @Derives.leaf g ⟨s, ""⟩ notLeft⟩

/-- If every nonterminal derives some text, so does every symbol. -/
theorem exists_derives_of_nonterminals (texts : ∀ s ∈ g.nonterminals, ∃ tree, g.Derives s tree) (s : String) :
    ∃ tree, g.Derives s tree := by
  by_cases isLeft : s ∈ g.nonterminals
  · exact texts s isLeft
  · exact exists_derives_of_terminal isLeft

/-- A symbol of the grammar that is no nonterminal is a terminal. -/
theorem mem_terminals_of_not_nonterminal {s : String} (member : s ∈ g.symbols)
    (notLeft : s ∉ g.nonterminals) : s ∈ g.terminals :=
  (mem_symbols.mp member).resolve_left notLeft

/-- **A text of a symbol begins with one of its first terminals.** -/
theorem Derives.exists_first {s : String} {tree : Tree} (derives : g.Derives s tree)
    (member : s ∈ g.symbols) :
    ∃ token rest, tree.yield = token :: rest ∧ token.kind ∈ g.terminals ∧
      (Numbered.ofGrammar g).Starts (g.code s) (g.code token.kind) := by
  induction tree using Tree.induction generalizing s with
  | leaf token =>
    cases derives with
    | leaf notLeft =>
      have isTerminal := mem_terminals_of_not_nonterminal member notLeft
      exact ⟨token, [], rfl, isTerminal, .terminal ((code_mem_terminal_iff member).mpr isTerminal)⟩
  | node p children ih =>
    cases derives with
    | @node _ production _ found all =>
      have inProductions : production ∈ g.productions := List.mem_of_getElem? found
      cases shape : production.right with
      | nil => exact absurd shape production.right_ne_nil
      | cons first symbols =>
        rw [shape] at all
        cases all with
        | @cons _ _ tree trees derivesFirst _ =>
          have inRight : first ∈ production.right := by simp [shape]
          obtain ⟨token, rest, begins, isTerminal, starts⟩ := ih tree List.mem_cons_self derivesFirst
            (right_mem_symbols inProductions inRight)
          refine ⟨token, rest ++ Tree.yieldAll trees, ?_, isTerminal, ?_⟩
          · rw [Tree.yield, Tree.yieldAll, begins, List.cons_append]
          · have numbered : (Numbered.ofGrammar g).productions[p]? = some (g.numbered production) := by
              rw [ofGrammar_productions, found, Option.map_some]
            have right : (g.numbered production).right = g.code first :: symbols.map g.code := by
              simp [Grammar.numbered, shape]
            exact .production numbered right starts

end XPathAnnotator.Grammar
