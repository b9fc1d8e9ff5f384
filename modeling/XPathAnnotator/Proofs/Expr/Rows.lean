/-
**Readings taken apart.**

What is read as a part was read by a rule, from rows of tokens that were read as the symbols on its right side. So
what the rules keep holds of all readings. Two facts about the texts of symbols come from it: which of them end in a
mark that the name after it belongs to, and that a path takes a further step in front.

* `Row`, `Reads.induction` — induction over readings;
* `Reads.exists_last` — the last token of a text;
* `Reads.behind_step` — relative paths with a step before them.
-/

import Mathlib
import XPathAnnotator.Proofs.Expr.Shape

namespace XPathAnnotator.Expr

open Grammar

/-- Rows of tokens, one after the other, that are related to symbols and parts. -/
inductive Row (R : String → List Token → Part → Prop) : List String → List Token → List Part → Prop
  | nil : Row R [] [] []
  | cons {s : String} {symbols : List String} {tokens more : List Token} {part : Part} {parts : List Part}
    (first : R s tokens part) (rest : Row R symbols more parts) :
    Row R (s :: symbols) (tokens ++ more) (part :: parts)

variable {R S : String → List Token → Part → Prop} {s : String} {symbols : List String} {tokens : List Token}
  {part : Part} {parts : List Part}

theorem Row.imp (row : Row R symbols tokens parts)
    (holds : ∀ s some part, (∀ token ∈ some, token ∈ tokens) → R s some part → S s some part) :
    Row S symbols tokens parts := by
  induction row with
  | nil => exact .nil
  | @cons s symbols tokens more part parts first _ ih =>
    refine .cons (holds s tokens part (fun token => List.mem_append_left more) first) (ih ?_)
    exact fun s some part inMore => holds s some part fun token member =>
      List.mem_append_right tokens (inMore token member)

theorem Row.readsAll (row : Row Reads symbols tokens parts) : ReadsAll symbols tokens parts := by
  induction row with
  | nil => exact .nil
  | cons first _ ih => exact .cons first ih

/-- The row of the last symbol. -/
theorem Row.exists_last (row : Row R symbols tokens parts) (nonempty : symbols ≠ []) :
    ∃ before some part, tokens = before ++ some ∧ R (symbols.getLast nonempty) some part := by
  induction row with
  | nil => exact absurd rfl nonempty
  | @cons s symbols tokens more part parts first rest ih =>
    cases symbols with
    | nil =>
      cases rest
      exact ⟨[], tokens, part, List.append_nil tokens, first⟩
    | cons next symbols =>
      obtain ⟨before, some, last, rfl, holds⟩ := ih (List.cons_ne_nil _ _)
      exact ⟨tokens ++ before, some, last, (List.append_assoc ..).symm, holds⟩

theorem row_of_trees {trees : List Tree} (derives : grammar.DerivesAll symbols trees)
    (yields : Tree.yieldAll trees = tokens.map Token.forGrammar) (folds : Tree.foldAll semantics trees = .ok parts)
    (each : ∀ tree ∈ trees, ∀ s tokens part, grammar.Derives s tree → tree.yield = tokens.map Token.forGrammar →
      tree.fold semantics = .ok part → R s tokens part) : Row R symbols tokens parts := by
  induction trees generalizing symbols tokens parts with
  | nil =>
    cases derives
    obtain rfl := List.map_eq_nil_iff.mp yields.symm
    obtain rfl := Except.ok.inj folds
    exact .nil
  | cons tree trees ih =>
    cases derives with
    | @cons s symbols _ _ first rest =>
      rw [Tree.yieldAll] at yields
      obtain ⟨here, after, rfl, yieldsHere, yieldsAfter⟩ := List.append_eq_map_iff.mp yields
      rw [Tree.foldAll_eq_ok] at folds
      obtain _ | ⟨foldsHere, foldsAfter⟩ := folds
      refine .cons (each tree List.mem_cons_self s here _ first yieldsHere.symm foldsHere) ?_
      exact ih rest yieldsAfter.symm (Tree.foldAll_eq_ok.mpr foldsAfter)
        fun child member => each child (List.mem_cons_of_mem _ member)

/-- **Induction over readings**: what holds of single tokens, and of what a rule makes if it holds of the parts that
the rule is given, holds of all that is read. -/
theorem Reads.induction {P : String → List Token → Part → Prop}
    (word : ∀ token : Token, token.kind.terminal ∉ grammar.nonterminals →
      P token.kind.terminal [token] (.word token.text))
    (rule : ∀ (k : Nat) (p : Production) (tokens : List Token) (parts : List Part) (part : Part),
      grammar.productions[k]? = some p →
        Row (fun s some part => Reads s some part ∧ P s some part) p.right tokens parts →
        builders.getD k Expr.keep parts = .ok part → P p.left tokens part)
    (reads : Reads s tokens part) : P s tokens part := by
  obtain ⟨tree, derives, yields, folds⟩ := reads
  induction tree using Tree.induction generalizing s tokens part with
  | leaf token =>
    cases derives with
    | leaf notLeft =>
      obtain ⟨source, rfl, rfl⟩ := List.map_eq_singleton_iff.mp yields.symm
      obtain rfl := Except.ok.inj folds
      exact word source notLeft
  | node k children ih =>
    cases derives with
    | @node _ production _ found derivesAll =>
      rw [Tree.fold] at folds
      split at folds
      · cases folds
      next parts foldsAll =>
        refine rule k production tokens parts part found (row_of_trees derivesAll yields foldsAll ?_) folds
        exact fun child member s tokens part derives yields folds =>
          ⟨⟨child, derives, yields, folds⟩, ih child member derives yields folds⟩

/-- What is read as a terminal is one token. -/
theorem Reads.exists_token (reads : Reads s tokens part) (notLeft : s ∉ grammar.nonterminals) :
    ∃ token : Token, tokens = [token] ∧ token.kind.terminal = s ∧ part = .word token.text := by
  obtain ⟨tree, derives, yields, folds⟩ := reads
  obtain ⟨token, rfl, rfl⟩ := Derives.eq_leaf derives notLeft
  obtain ⟨source, rfl, rfl⟩ := List.map_eq_singleton_iff.mp yields.symm
  exact ⟨source, rfl, rfl, (Except.ok.inj folds).symm⟩

/-- A fact about all productions and their numbers is checked on the list of them. -/
theorem of_productions {Q : Nat → Production → Prop}
    (all : ∀ pair ∈ (Grammar.mk "Expr" rules).productions.zipIdx, Q pair.2 pair.1) {k : Nat} {p : Production}
    (found : grammar.productions[k]? = some p) : Q k p := by
  rw [grammar_eq] at found
  exact all (p, k) (List.mem_zipIdx_iff_getElem?.mpr found)

/-! ### The ends of texts -/

/-- **The last token of a text** is as the symbol is, if each left side is as the last symbol on its right side. -/
theorem Reads.exists_last (ends : String → Bool)
    (all : ∀ p ∈ (Grammar.mk "Expr" rules).productions, ends (p.right.getLast p.right_ne_nil) = ends p.left)
    (reads : Reads s tokens part) :
    ∃ before last, tokens = before ++ [last] ∧ last.kind.terminal ∉ grammar.nonterminals ∧
      ends last.kind.terminal = ends s := by
  refine Reads.induction (P := fun s tokens _ => ∃ before last, tokens = before ++ [last] ∧
    last.kind.terminal ∉ grammar.nonterminals ∧ ends last.kind.terminal = ends s) ?_ ?_ reads
  · exact fun token notLeft => ⟨[], token, rfl, notLeft, rfl⟩
  · intro k p tokens parts part found row _
    obtain ⟨before, some, _, rfl, _, front, last, rfl, notLeft, same⟩ := row.exists_last p.right_ne_nil
    refine ⟨before ++ front, last, (List.append_assoc ..).symm, notLeft, same.trans (all p ?_)⟩
    rw [← grammar_eq]
    exact List.mem_of_getElem? found

/-! ### Steps in front of a path -/

theorem separator_not_mem_nonterminals : ∀ s ∈ ["/", "//"], s ∉ grammar.nonterminals := by
  rw [grammar_eq]
  decide

theorem relativePath_mem_nonterminals : "RelativeLocationPath" ∈ grammar.nonterminals := by
  rw [grammar_eq]
  decide

/-- The rules of relative paths. -/
theorem rules_relativePath {k : Nat} {p : Production} (found : grammar.productions[k]? = some p)
    (left : p.left = "RelativeLocationPath") : k = 36 ∨ k = 37 ∨ k = 38 :=
  of_productions (Q := fun k p => p.left = "RelativeLocationPath" → k = 36 ∨ k = 37 ∨ k = 38) (by decide) found left

/-- A step after a path, and what is read if the path has got a step in front. -/
theorem exists_behind_step {k : Nat} {separator : String} {front : List Token} {step : Step}
    (found : rules[k]? = some ⟨"RelativeLocationPath", ["RelativeLocationPath", separator, "Step"],
      List.cons_ne_nil _ _⟩) (builder : builders.getD (k + 1) keep = nextStep)
    (isMark : separator ∈ ["/", "//"])
    (row : Row (fun s some part => Reads s some part ∧ (s = "RelativeLocationPath" → ∃ steps,
      part = .path false steps ∧
        Reads "RelativeLocationPath" (front ++ Token.symbol "/" :: some) (.path false (step :: steps))))
      ["RelativeLocationPath", separator, "Step"] tokens parts) (built : nextStep parts = .ok part) :
    ∃ steps, part = .path false steps ∧
      Reads "RelativeLocationPath" (front ++ Token.symbol "/" :: tokens) (.path false (step :: steps)) := by
  obtain _ | ⟨⟨-, behind⟩, _ | ⟨⟨readsMark, -⟩, _ | ⟨⟨readsStep, -⟩, _ | _⟩⟩⟩ := row
  obtain ⟨steps, rfl, reads⟩ := behind rfl
  obtain ⟨mark, rfl, -, rfl⟩ := readsMark.exists_token (separator_not_mem_nonterminals separator isMark)
  obtain ⟨last, rfl, -⟩ := readsStep.fits
  obtain rfl := Except.ok.inj built
  refine ⟨_, rfl, ?_⟩
  have all := ReadsAll.cons reads (.cons readsMark readsStep.last)
  have longer := Reads.of_rule found all (by rw [builder]; rfl)
  simpa using longer

/-- **A step in front of a path**: what is read as a relative path is read, behind a step and a slash, as the path with
the step in front. -/
theorem Reads.behind_step {front : List Token} {step : Step} (readsFront : Reads "Step" front (.step step))
    {steps : List Step} (reads : Reads "RelativeLocationPath" tokens (.path false steps)) :
    Reads "RelativeLocationPath" (front ++ Token.symbol "/" :: tokens) (.path false (step :: steps)) := by
  have behind : ∃ taken, Part.path false steps = .path false taken ∧ Reads "RelativeLocationPath"
      (front ++ Token.symbol "/" :: tokens) (.path false (step :: taken)) := by
    refine Reads.induction (P := fun s tokens part => s = "RelativeLocationPath" → ∃ steps,
      part = .path false steps ∧ Reads "RelativeLocationPath" (front ++ Token.symbol "/" :: tokens)
        (.path false (step :: steps))) ?_ ?_ reads rfl
    · intro token notLeft same
      exact absurd (same ▸ relativePath_mem_nonterminals) notLeft
    · intro k p tokens parts part found row built left
      rcases rules_relativePath found left with rfl | rfl | rfl
      all_goals
        rw [grammar_eq] at found
        obtain rfl := Option.some.inj found
      · obtain _ | ⟨⟨readsStep, -⟩, _ | _⟩ := row
        obtain ⟨last, rfl, -⟩ := readsStep.fits
        obtain rfl := Except.ok.inj built
        have first : Reads "RelativeLocationPath" front (.path false [step]) :=
          @Reads.of_rule 35 _ rfl _ _ _ readsFront.last rfl
        refine ⟨[last], rfl, ?_⟩
        rw [List.append_nil]
        exact @Reads.of_rule 36 _ rfl _ _ _ (.cons first (.symbol "/" (by decide) readsStep.last)) rfl
      · exact exists_behind_step (k := 36) rfl rfl (by decide) row built
      · exact exists_behind_step (k := 37) rfl rfl (by decide) row built
  obtain ⟨taken, same, reads⟩ := behind
  rw [(Part.path.inj same).2]
  exact reads

end XPathAnnotator.Expr
