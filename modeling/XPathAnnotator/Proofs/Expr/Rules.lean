/-
**The rules of the grammar of XPath, and readings of tokens.**

The rules as they are read (`rules`), the parsing table of XPath, which has no conflicts, and a text for each
nonterminal.

A row of tokens is read as a part if it is the text of a derivation tree with that value. Readings are put together by
the rules of the grammar, and parsing finds exactly the readings of expressions.

* `grammar_eq` — reading the written rules gives `rules`;
* `exists_table` — there is a table, and it is decided;
* `Reads.of_production`, `Reads.of_rule`, `reads_token` — readings from the rules and from single tokens;
* `ofTokens_of_reads` — what is read as an expression is parsed as this expression;
* `reads_of_ofTokens` — and conversely, where no token is an end mark.
-/

import Mathlib
import XPathAnnotator.Expr.Parser
import XPathAnnotator.Proofs.Grammar.Clear
import XPathAnnotator.Proofs.Grammar.Completeness
import XPathAnnotator.Proofs.Text.Words

namespace XPathAnnotator

namespace Grammar

open Text

/-- A rule of unbroken symbols is read back from its written form. -/
theorem Production.ofRule?_text {p : Production} (left : Unbroken p.left) (right : ∀ s ∈ p.right, Unbroken s) :
    Production.ofRule? p.text = some p := by
  have noSpace : ' ' ∉ p.left.toList := fun member => absurd (left.2 ' ' member) (by decide)
  have written : p.text.toList =
      p.left.toList ++ [' ', ':', ' '] ++ (String.intercalate " " p.right).toList := by
    unfold Production.text
    rw [String.toList_append, String.toList_append]
    rfl
  unfold Production.ofRule?
  rw [written, splitAtFirst?_append _ noSpace]
  dsimp only
  rw [String.ofList_toList, String.ofList_toList, left.trimSpaces_eq, words_intercalate_of_unbroken right]
  obtain ⟨name, symbols, nonempty⟩ := p
  cases symbols with
  | nil => exact absurd rfl nonempty
  | cons symbol symbols =>
    have filled : name.isEmpty = false := by
      rw [Bool.eq_false_iff, ne_eq, String.isEmpty_iff]
      rintro rfl
      exact left.1 rfl
    simp [filled]

end Grammar

namespace Expr

open Grammar

/-- The rules of the grammar. -/
def rules : List Production := [
  ⟨"Expr", ["OrExpr"], List.cons_ne_nil _ _⟩,
  ⟨"OrExpr", ["AndExpr"], List.cons_ne_nil _ _⟩,
  ⟨"AndExpr", ["EqualityExpr"], List.cons_ne_nil _ _⟩,
  ⟨"EqualityExpr", ["RelationalExpr"], List.cons_ne_nil _ _⟩,
  ⟨"RelationalExpr", ["AdditiveExpr"], List.cons_ne_nil _ _⟩,
  ⟨"AdditiveExpr", ["MultiplicativeExpr"], List.cons_ne_nil _ _⟩,
  ⟨"MultiplicativeExpr", ["UnaryExpr"], List.cons_ne_nil _ _⟩,
  ⟨"UnaryExpr", ["UnionExpr"], List.cons_ne_nil _ _⟩,
  ⟨"UnionExpr", ["PathExpr"], List.cons_ne_nil _ _⟩,
  ⟨"OrExpr", ["OrExpr", "or", "AndExpr"], List.cons_ne_nil _ _⟩,
  ⟨"AndExpr", ["AndExpr", "and", "EqualityExpr"], List.cons_ne_nil _ _⟩,
  ⟨"EqualityExpr", ["EqualityExpr", "=", "RelationalExpr"], List.cons_ne_nil _ _⟩,
  ⟨"EqualityExpr", ["EqualityExpr", "!=", "RelationalExpr"], List.cons_ne_nil _ _⟩,
  ⟨"RelationalExpr", ["RelationalExpr", "<", "AdditiveExpr"], List.cons_ne_nil _ _⟩,
  ⟨"RelationalExpr", ["RelationalExpr", ">", "AdditiveExpr"], List.cons_ne_nil _ _⟩,
  ⟨"RelationalExpr", ["RelationalExpr", "<=", "AdditiveExpr"], List.cons_ne_nil _ _⟩,
  ⟨"RelationalExpr", ["RelationalExpr", ">=", "AdditiveExpr"], List.cons_ne_nil _ _⟩,
  ⟨"AdditiveExpr", ["AdditiveExpr", "+", "MultiplicativeExpr"], List.cons_ne_nil _ _⟩,
  ⟨"AdditiveExpr", ["AdditiveExpr", "-", "MultiplicativeExpr"], List.cons_ne_nil _ _⟩,
  ⟨"MultiplicativeExpr", ["MultiplicativeExpr", "MULTIPLY", "UnaryExpr"], List.cons_ne_nil _ _⟩,
  ⟨"MultiplicativeExpr", ["MultiplicativeExpr", "div", "UnaryExpr"], List.cons_ne_nil _ _⟩,
  ⟨"MultiplicativeExpr", ["MultiplicativeExpr", "mod", "UnaryExpr"], List.cons_ne_nil _ _⟩,
  ⟨"UnaryExpr", ["-", "UnaryExpr"], List.cons_ne_nil _ _⟩,
  ⟨"UnionExpr", ["UnionExpr", "|", "PathExpr"], List.cons_ne_nil _ _⟩,
  ⟨"PathExpr", ["LocationPath"], List.cons_ne_nil _ _⟩,
  ⟨"PathExpr", ["FilterExpr"], List.cons_ne_nil _ _⟩,
  ⟨"PathExpr", ["FilterExpr", "/", "RelativeLocationPath"], List.cons_ne_nil _ _⟩,
  ⟨"PathExpr", ["FilterExpr", "//", "RelativeLocationPath"], List.cons_ne_nil _ _⟩,
  ⟨"FilterExpr", ["PrimaryExpr"], List.cons_ne_nil _ _⟩,
  ⟨"FilterExpr", ["FilterExpr", "Predicate"], List.cons_ne_nil _ _⟩,
  ⟨"LocationPath", ["RelativeLocationPath"], List.cons_ne_nil _ _⟩,
  ⟨"LocationPath", ["AbsoluteLocationPath"], List.cons_ne_nil _ _⟩,
  ⟨"AbsoluteLocationPath", ["/"], List.cons_ne_nil _ _⟩,
  ⟨"AbsoluteLocationPath", ["/", "RelativeLocationPath"], List.cons_ne_nil _ _⟩,
  ⟨"AbsoluteLocationPath", ["//", "RelativeLocationPath"], List.cons_ne_nil _ _⟩,
  ⟨"RelativeLocationPath", ["Step"], List.cons_ne_nil _ _⟩,
  ⟨"RelativeLocationPath", ["RelativeLocationPath", "/", "Step"], List.cons_ne_nil _ _⟩,
  ⟨"RelativeLocationPath", ["RelativeLocationPath", "//", "Step"], List.cons_ne_nil _ _⟩,
  ⟨"Step", ["AxisSpecifier", "NodeTest"], List.cons_ne_nil _ _⟩,
  ⟨"Step", ["AxisSpecifier", "NodeTest", "PredicateList"], List.cons_ne_nil _ _⟩,
  ⟨"Step", ["NodeTest"], List.cons_ne_nil _ _⟩,
  ⟨"Step", ["NodeTest", "PredicateList"], List.cons_ne_nil _ _⟩,
  ⟨"Step", ["."], List.cons_ne_nil _ _⟩,
  ⟨"Step", [".."], List.cons_ne_nil _ _⟩,
  ⟨"AxisSpecifier", ["AXIS_NAME", "::"], List.cons_ne_nil _ _⟩,
  ⟨"AxisSpecifier", ["@"], List.cons_ne_nil _ _⟩,
  ⟨"NodeTest", ["NameTest"], List.cons_ne_nil _ _⟩,
  ⟨"NodeTest", ["NODE_TYPE", "(", ")"], List.cons_ne_nil _ _⟩,
  ⟨"NodeTest", ["PI_WITH_LITERAL", "(", "LITERAL", ")"], List.cons_ne_nil _ _⟩,
  ⟨"NameTest", ["ASTERISK_NAME_TEST"], List.cons_ne_nil _ _⟩,
  ⟨"NameTest", ["NCNAME_COLON_ASTERISK"], List.cons_ne_nil _ _⟩,
  ⟨"NameTest", ["QNAME"], List.cons_ne_nil _ _⟩,
  ⟨"PredicateList", ["Predicate"], List.cons_ne_nil _ _⟩,
  ⟨"PredicateList", ["PredicateList", "Predicate"], List.cons_ne_nil _ _⟩,
  ⟨"Predicate", ["[", "Expr", "]"], List.cons_ne_nil _ _⟩,
  ⟨"PrimaryExpr", ["VariableReference"], List.cons_ne_nil _ _⟩,
  ⟨"PrimaryExpr", ["(", "Expr", ")"], List.cons_ne_nil _ _⟩,
  ⟨"PrimaryExpr", ["LITERAL"], List.cons_ne_nil _ _⟩,
  ⟨"PrimaryExpr", ["NUMBER"], List.cons_ne_nil _ _⟩,
  ⟨"PrimaryExpr", ["FunctionCall"], List.cons_ne_nil _ _⟩,
  ⟨"FunctionCall", ["FUNCTION_NAME", "(", ")"], List.cons_ne_nil _ _⟩,
  ⟨"FunctionCall", ["FUNCTION_NAME", "(", "ArgumentList", ")"], List.cons_ne_nil _ _⟩,
  ⟨"ArgumentList", ["Expr"], List.cons_ne_nil _ _⟩,
  ⟨"ArgumentList", ["ArgumentList", ",", "Expr"], List.cons_ne_nil _ _⟩,
  ⟨"VariableReference", ["$", "QNAME"], List.cons_ne_nil _ _⟩]

theorem unbroken_rules : ∀ p ∈ rules, Text.Unbroken p.left ∧ ∀ s ∈ p.right, Text.Unbroken s := by decide +kernel

theorem text_rules : productions.map Prod.fst = rules.map Production.text := by decide +kernel

/-- **Reading the rules** as they are written. -/
theorem grammar_eq : grammar = ⟨"Expr", rules⟩ := by
  have read : ∀ p ∈ rules, Production.ofRule? p.text = some p :=
    fun p member => Production.ofRule?_text (unbroken_rules p member).1 (unbroken_rules p member).2
  have written : productions.filterMap (fun pair => Production.ofRule? pair.1) = rules := by
    have first : productions.filterMap (fun pair => Production.ofRule? pair.1) =
        (productions.map Prod.fst).filterMap Production.ofRule? := by
      rw [List.filterMap_map]
      rfl
    rw [first, text_rules, List.filterMap_map]
    exact (List.filterMap_congr read).trans List.filterMap_some
  exact congrArg (Grammar.mk "Expr") written

set_option maxRecDepth 20000 in
theorem simple_grammar : (Grammar.mk "Expr" rules).numbers.isSimple 2 103 = true := by decide +kernel

theorem fruitful_grammar : ∀ s ∈ (Grammar.mk "Expr" rules).nonterminals,
    s ∈ Nat.repeat (Grammar.mk "Expr" rules).fruitfulRound 2 [] := by decide +kernel

theorem unreserved_rules : (Grammar.mk "Expr" rules).Unreserved :=
  ⟨by decide +kernel, by decide +kernel, by decide +kernel⟩

theorem start_mem_nonterminals : "Expr" ∈ (Grammar.mk "Expr" rules).nonterminals := by decide +kernel

/-- **The parsing table of XPath** is there and has no conflicts. -/
theorem exists_table : ∃ t, table? = some t ∧ Decided grammar t := by
  have texts : ∀ s ∈ (Grammar.mk "Expr" rules).nonterminals, ∃ tree, (Grammar.mk "Expr" rules).Derives s tree :=
    fun s member => exists_derives_of_mem_repeat 2 s (fruitful_grammar s member)
  have made := exists_decided unreserved_rules start_mem_nonterminals texts simple_grammar
  rw [← grammar_eq] at made
  obtain ⟨t, built, decided⟩ := made
  exact ⟨t, congrArg Except.toOption built, decided⟩

end Expr

end XPathAnnotator

namespace XPathAnnotator.Expr

open Grammar

/-! ### Readings of tokens -/

/-- A row of tokens is the text of a derivation tree of a symbol, and the value of the tree is a part. -/
def Reads (s : String) (tokens : List Token) (part : Part) : Prop :=
  ∃ tree, grammar.Derives s tree ∧ tree.yield = tokens.map Token.forGrammar ∧
    tree.fold semantics = .ok part

/-- Rows of tokens, one after the other, are read as parts of symbols. -/
inductive ReadsAll : List String → List Token → List Part → Prop
  | nil : ReadsAll [] [] []
  | cons {s : String} {symbols : List String} {tokens more : List Token} {part : Part} {parts : List Part} :
      Reads s tokens part → ReadsAll symbols more parts →
        ReadsAll (s :: symbols) (tokens ++ more) (part :: parts)

theorem ReadsAll.exists_trees {symbols : List String} {tokens : List Token} {parts : List Part}
    (reads : ReadsAll symbols tokens parts) : ∃ trees, grammar.DerivesAll symbols trees ∧
      Tree.yieldAll trees = tokens.map Token.forGrammar ∧ Tree.foldAll semantics trees = .ok parts := by
  induction reads with
  | nil => exact ⟨[], .nil, rfl, rfl⟩
  | cons first _ ih =>
    obtain ⟨tree, derives, yields, folds⟩ := first
    obtain ⟨trees, derivesAll, yieldsAll, foldsAll⟩ := ih
    refine ⟨tree :: trees, .cons derives derivesAll, ?_, ?_⟩
    · rw [Tree.yieldAll, yields, yieldsAll, List.map_append]
    · rw [Tree.foldAll, folds, foldsAll]

theorem productions_getElem? {k : Nat} {p : Production} (found : rules[k]? = some p) :
    grammar.productions[k + 1]? = some p := by
  rw [grammar_eq]
  exact found

/-- **Readings by a production.** -/
theorem Reads.of_production {k : Nat} {p : Production} (found : grammar.productions[k]? = some p)
    {tokens : List Token} {parts : List Part} {part : Part} (all : ReadsAll p.right tokens parts)
    (built : builders.getD k keep parts = .ok part) : Reads p.left tokens part := by
  obtain ⟨trees, derives, yields, folds⟩ := all.exists_trees
  refine ⟨.node k trees, .node found derives, yields, ?_⟩
  rw [Tree.fold, folds]
  exact built

/-- Readings by a rule of the grammar. -/
theorem Reads.of_rule {k : Nat} {p : Production} (found : rules[k]? = some p) {tokens : List Token}
    {parts : List Part} {part : Part} (all : ReadsAll p.right tokens parts)
    (built : builders.getD (k + 1) keep parts = .ok part) : Reads p.left tokens part :=
  Reads.of_production (productions_getElem? found) all built

/-- A token is read as its text. -/
theorem reads_word {token : Token} (notLeft : token.kind.terminal ∉ grammar.nonterminals) :
    Reads token.kind.terminal [token] (.word token.text) :=
  ⟨.leaf token.forGrammar, @Derives.leaf _ token.forGrammar notLeft, rfl, rfl⟩

theorem reads_token {token : Token} (terminal : token.kind.terminal ∈ grammar.terminals) :
    Reads token.kind.terminal [token] (.word token.text) := by
  obtain ⟨_, _, decided⟩ := exists_table
  exact reads_word (decided.plain.unmarked.not_nonterminal_of_mem_terminals terminal)

/-- Parsing goes by the table. Its definition must stay folded: to unfold it is to compute the table. -/
theorem ofTokens_eq {t : Table} (found : table? = some t) (tokens : List Token) :
    ofTokens tokens = ofTokensBy (some t) tokens :=
  congrArg (ofTokensBy · tokens) found

/-- **What is read as an expression is parsed as this expression.** -/
theorem ofTokens_of_reads {tokens : List Token} {e : Expr} (reads : Reads "Expr" tokens (.expr e)) :
    ofTokens tokens = .ok e := by
  obtain ⟨t, found, decided⟩ := exists_table
  obtain ⟨tree, derives, yields, folds⟩ := reads
  have parsed := parse_eq_of_ends decided
    (ends_of_derives decided semantics derives (rfl : Grammar.Token.end.kind = endSymbol))
  rw [folds, yields] at parsed
  have sentence : Token.sentence tokens = tokens.map Token.forGrammar ++ [Grammar.Token.end] := rfl
  rw [ofTokens_eq found, ofTokensBy, sentence, parsed]
  rfl

/-- A part that is accepted is the value of a derivation tree of the tokens. -/
theorem reads_of_accepted {t : Table} (decided : Decided grammar t) {tokens : List Token}
    (only : ∀ token ∈ tokens, token.kind.terminal ≠ endSymbol) {part : Part}
    (accepted : t.parse semantics (Token.sentence tokens) = .ok part) : Reads "Expr" tokens part := by
  have ends : t.Ends semantics ⟨[], Token.sentence tokens⟩ (.ok part) := by
    unfold Table.parse at accepted
    rw [← accepted]
    exact Table.ends_of_run (by rw [accepted]; simp)
  refine accepted_of_ends decided.made decided.plain rfl (fun token member => ?_) ends
  obtain ⟨source, inTokens, rfl⟩ := List.mem_map.mp member
  exact only source inTokens

/-- **What is parsed as an expression is read as this expression.** -/
theorem reads_of_ofTokens {tokens : List Token} (only : ∀ token ∈ tokens, token.kind.terminal ≠ endSymbol)
    {e : Expr} (parsed : ofTokens tokens = .ok e) : Reads "Expr" tokens (.expr e) := by
  obtain ⟨t, found, decided⟩ := exists_table
  rw [ofTokens_eq found, ofTokensBy] at parsed
  split at parsed
  · rename_i value accepted
    obtain rfl := Except.ok.inj parsed
    exact reads_of_accepted decided only accepted
  all_goals exact absurd parsed (by simp)

end XPathAnnotator.Expr
