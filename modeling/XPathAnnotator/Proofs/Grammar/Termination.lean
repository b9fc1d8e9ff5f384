/-
**Parsing ends.**

Reading a token and applying a production with two or more symbols shrink the tokens left and the stack, with
weights. Productions with one symbol only rename the symbol on top of the stack. In a table without conflicts
no such renaming is part of a cycle of renamings (`not_expects_of_cycle`): the state from which the cycle is
entered could not decide between going round and leaving. So no nonterminal comes up twice between two
shrinking steps, which gives the bound of `Table.stepBound` (`exists_endsWithin_parse`).
-/

import Mathlib
import XPathAnnotator.Proofs.Grammar.Decided

namespace XPathAnnotator.Grammar

open Relation (ReflTransGen)
open Table (top)

/-- A production with one symbol renames it to its left side. -/
def Renames (g : Grammar) (s s' : String) : Prop :=
  ∃ p production, g.productions[p]? = some production ∧ p ≠ 0 ∧ production.right = [s] ∧ production.left = s'

variable {g : Grammar} {t : Table}

namespace Decided

/-! ### Cycles of renamings -/

theorem nextSymbol?_start {p : Nat} {production : Production} (found : g.productions[p]? = some production)
    {s : String} (one : production.right = [s]) : g.numbers.nextSymbol? ⟨p, 0⟩ = some (g.code s) :=
  Numbered.nextSymbol?_eq_some.mpr ⟨_, numbers_productions found, by simp [Grammar.numbered, one]⟩

theorem restAfterNext_start {p : Nat} {production : Production} (found : g.productions[p]? = some production)
    {s : String} (one : production.right = [s]) : g.numbers.restAfterNext ⟨p, 0⟩ = [] := by
  rw [Numbered.restAfterNext_eq (numbers_productions found)]
  simp [Grammar.numbered, one]

/-- Where a renaming of a cycle is expected, so are the renamings that lead to it along the cycle. -/
theorem expects_back {k x p : Nat} {production : Production} (expects : g.ExpectsAt k ⟨p, 0⟩ x)
    (found : g.productions[p]? = some production) (explicit : p ≠ 0) {s : String}
    (one : production.right = [s]) (back : ReflTransGen g.Renames production.left s) {w : String}
    (path : ReflTransGen g.Renames w s) :
    ∃ q other, g.productions[q]? = some other ∧ q ≠ 0 ∧ other.right = [w] ∧ g.ExpectsAt k ⟨q, 0⟩ x ∧
      ReflTransGen g.Renames other.left s := by
  induction path using ReflTransGen.head_induction_on with
  | refl => exact ⟨p, production, found, explicit, one, expects, back⟩
  | head renames path ih =>
    obtain ⟨q, other, foundOther, _, oneOther, expectsOther, _⟩ := ih
    obtain ⟨r, previous, foundPrevious, explicitPrevious, onePrevious, rfl⟩ := renames
    refine ⟨r, previous, foundPrevious, explicitPrevious, onePrevious, ?_, path⟩
    refine expectsOther.spread (nextSymbol?_start foundOther oneOther) (numbers_productions foundPrevious)
      rfl ?_
    rw [restAfterNext_start foundOther oneOther]
    exact .inherited

/-- A production that ends where another item could go on is not applied there: the table would have to decide
between the two. -/
theorem eq_of_reduces (decided : Decided g t) {k j p y : Nat} {s w : String} {item : Item}
    {production : Production} (isTerminal : s ∈ g.terminals)
    (target : g.automaton.target? k (g.code w) = some j) (acts : t.action? j s = some (.reduce p))
    (found : g.productions[p]? = some production) (one : production.right = [w])
    (expects : g.ExpectsAt k item y) (next : g.numbers.nextSymbol? item = some (g.code w))
    (follows : g.numbers.Follows y (g.numbers.restAfterNext item) (g.code s)) :
    item = ⟨p, 0⟩ ∧ y = g.code s := by
  have advanced : g.ExpectsAt j item.advanced y := expects.advance ⟨_, next, target⟩
  obtain ⟨numberedRule, foundNumbered, atDot⟩ := Numbered.nextSymbol?_eq_some.mp next
  obtain ⟨rule, foundRule, rfl⟩ := exists_production foundNumbered
  have restIs := Numbered.restAfterNext_eq foundNumbered
  have inside := (List.getElem?_eq_some_iff.mp atDot).1
  rw [Grammar.numbered, List.length_map] at inside
  rw [restIs] at follows
  generalize shape : (g.numbered rule).right.drop (item.dot + 1) = rest at follows
  cases follows with
  | inherited =>
    have atEnd : item.dot + 1 = rule.right.length := by
      have short := List.drop_eq_nil_iff.mp shape
      rw [Grammar.numbered, List.length_map] at short
      omega
    rcases Nat.eq_zero_or_pos item.production with implicit | explicit
    · have isEnd := decided.eq_end_of_implicit expects implicit
      have sEnd : s = endSymbol := code_inj (mem_symbols.mpr (Or.inr isTerminal)) isEnd
      have atOne : item.advanced = ⟨0, 1⟩ := by
        rw [implicit] at foundRule
        obtain rfl := Option.some.inj (show some g.acceptProduction = some rule from foundRule)
        rw [Item.advanced, implicit, atEnd]
        rfl
      rw [atOne] at advanced
      rw [sEnd, decided.accepts advanced] at acts
      exact absurd acts (by simp)
    · have whole : item.advanced = ⟨item.production, rule.right.length⟩ := by rw [Item.advanced, atEnd]
      rw [whole] at advanced
      have same := decided.reduces foundRule (Nat.ne_of_gt explicit) isTerminal advanced
      obtain rfl : item.production = p := by
        rw [acts] at same
        exact (Action.reduce.inj (Option.some.inj same)).symm
      obtain rfl := Option.some.inj (found.symm.trans foundRule)
      have atStart : item.dot = 0 := by
        rw [one] at atEnd
        simpa using atEnd
      exact ⟨by rw [← atStart], rfl⟩
  | @started first rest _ starts =>
    obtain ⟨kernel, atState, member⟩ := advanced.mem_itemsOf decided.proper decided.explored
    have nextAfter : g.numbers.nextSymbol? item.advanced = some first := by
      refine Numbered.nextSymbol?_eq_some.mpr ⟨_, foundNumbered, ?_⟩
      have head := congrArg List.head? shape
      rw [List.head?_drop] at head
      exact head
    obtain ⟨other, inItems, nextOther⟩ := exists_item_of_starts decided.proper starts _ member nextAfter
    obtain ⟨i, _, shifts⟩ := decided.reads atState inItems nextOther isTerminal
    rw [acts] at shifts
    exact absurd shifts (by simp)

/-- **No renaming of a cycle is expected before any terminal.** -/
theorem not_expects_of_cycle (decided : Decided g t) {k x : Nat} {item : Item}
    (expects : g.ExpectsAt k item x) {p : Nat} {production : Production} {s w : String}
    (here : item = ⟨p, 0⟩) (isTerminal : w ∈ g.terminals) (same : x = g.code w)
    (found : g.productions[p]? = some production) (explicit : p ≠ 0) (one : production.right = [s])
    (back : ReflTransGen g.Renames production.left s) : False := by
  induction expects generalizing p production s with
  | start =>
    obtain ⟨rfl, _⟩ := Item.mk.inj here
    exact explicit rfl
  | advance _ _ _ =>
    obtain ⟨_, moved⟩ := Item.mk.inj here
    exact absurd moved (by simp)
  | @spread k i b y x item numberedRule expects next foundNumbered left follows ih =>
    subst same
    obtain ⟨rfl, _⟩ := Item.mk.inj here
    obtain rfl := Option.some.inj ((numbers_productions found).symm.trans foundNumbered)
    subst left
    -- The renaming of the cycle that follows in this state, after whose end the terminal is expected too.
    have whole : g.ExpectsAt k ⟨i, 0⟩ (g.code w) := expects.spread next foundNumbered rfl follows
    obtain ⟨q, other, foundOther, explicitOther, oneOther, expectsOther, backOther⟩ :=
      expects_back whole found explicit one back back
    obtain ⟨kernel, atState, member⟩ := expects.mem_itemsOf decided.proper decided.explored
    obtain ⟨j, target, _⟩ := decided.explored.target_of_next decided.proper atState member next
    have ended : g.ExpectsAt j ⟨q, other.right.length⟩ (g.code w) := by
      rw [oneOther]
      exact expectsOther.advance ⟨_, nextSymbol?_start foundOther oneOther, target⟩
    have acts := decided.reduces foundOther explicitOther isTerminal ended
    obtain ⟨rfl, rfl⟩ := decided.eq_of_reduces isTerminal target acts foundOther oneOther expects next follows
    have renames : g.Renames s production.left := ⟨i, production, found, explicit, one, rfl⟩
    exact ih rfl rfl foundOther explicitOther oneOther (backOther.tail renames)

/-- A renaming that the table applies is part of no cycle. -/
theorem not_cycle_of_reduce (decided : Decided g t) {k p : Nat} {w s : String}
    (acts : t.action? k w = some (.reduce p)) {production : Production}
    (found : g.productions[p]? = some production) (one : production.right = [s]) :
    ¬ ReflTransGen g.Renames production.left s := by
  intro back
  obtain ⟨production', found', explicit, isTerminal, expects⟩ := decided.expects_of_reduce acts
  obtain rfl := Option.some.inj (found.symm.trans found')
  rw [one] at expects
  generalize atEnd : (⟨p, [s].length⟩ : Item) = item at expects
  generalize same : g.code w = x at expects
  cases expects with
  | start => exact absurd (Item.mk.inj atEnd).2 (by simp)
  | spread => exact absurd (Item.mk.inj atEnd).2 (by simp)
  | @advance _ _ _ item expects _ =>
    obtain ⟨sameProduction, sameDot⟩ := Item.mk.inj atEnd
    have here : item = ⟨p, 0⟩ := by
      cases item
      simp_all
    exact decided.not_expects_of_cycle expects here isTerminal same.symm found explicit one back

end Decided

/-! ### The bound -/

variable {α ε : Type} {semantics : Semantics α ε}

/-- The symbols that renamings have turned into the one on top of the stack. -/
structure Renamed (g : Grammar) (symbols : List String) (seen : Finset String) : Prop where
  nonterminals : seen ⊆ g.nonterminals.toFinset
  leads : ∀ s ∈ seen, ∃ last ∈ symbols.head?, ReflTransGen g.Renames s last

theorem Renamed.none (g : Grammar) (symbols : List String) : Renamed g symbols ∅ :=
  ⟨Finset.empty_subset _, fun _ member => absurd member (Finset.notMem_empty _)⟩

theorem Renamed.card_le {symbols : List String} {seen : Finset String} (renamed : Renamed g symbols seen) :
    seen.card ≤ g.nonterminals.length :=
  (Finset.card_le_card renamed.nonterminals).trans (List.toFinset_card_le _)

/-- A renaming that is part of no cycle brings up a new symbol. -/
theorem Renamed.rename {symbols : List String} {seen : Finset String} {s : String}
    (renamed : Renamed g (s :: symbols) seen) {p : Nat} {production : Production}
    (found : g.productions[p]? = some production) (explicit : p ≠ 0) (one : production.right = [s])
    (acyclic : ¬ ReflTransGen g.Renames production.left s) (rest : List String) :
    production.left ∉ seen ∧ Renamed g (production.left :: rest) (insert production.left seen) := by
  refine ⟨fun again => ?_, fun w member => ?_, fun w member => ?_⟩
  · obtain ⟨last, isLast, path⟩ := renamed.leads _ again
    obtain rfl : s = last := by simpa using isLast
    exact acyclic path
  · rcases Finset.mem_insert.mp member with rfl | old
    · exact List.mem_toFinset.mpr (left_mem_nonterminals (List.mem_of_getElem? found))
    · exact renamed.nonterminals old
  · refine ⟨production.left, rfl, ?_⟩
    rcases Finset.mem_insert.mp member with rfl | old
    · exact .refl
    · obtain ⟨last, isLast, path⟩ := renamed.leads w old
      obtain rfl : s = last := by simpa using isLast
      exact path.tail ⟨p, production, found, explicit, one, rfl⟩

/-- The weight of a configuration: each step takes some of it away. -/
def weight (g : Grammar) (stack : List (Nat × α)) (tokens : List Token) (seen : Finset String) : Nat :=
  (2 * tokens.length + stack.length) * (g.nonterminals.length + 1) + (g.nonterminals.length - seen.card)

/-- A step that shrinks the tokens and the stack takes weight away, whatever has been seen. -/
theorem weight_lt_of_shrinks {stack stack' : List (Nat × α)} {tokens tokens' : List Token}
    (seen : Finset String)
    (shrinks : 2 * tokens'.length + stack'.length < 2 * tokens.length + stack.length) :
    weight g stack' tokens' ∅ < weight g stack tokens seen := by
  unfold weight
  have scaled := Nat.mul_le_mul_right (g.nonterminals.length + 1) (Nat.succ_le_of_lt shrinks)
  rw [Nat.succ_mul] at scaled
  omega

/-- So does a renaming to a symbol not seen yet. -/
theorem weight_lt_of_renames {stack stack' : List (Nat × α)} {tokens : List Token} {seen more : Finset String}
    (same : stack'.length = stack.length) (grows : more.card = seen.card + 1)
    (few : more.card ≤ g.nonterminals.length) :
    weight g stack' tokens more < weight g stack tokens seen := by
  unfold weight
  rw [same]
  omega

/-- What is left to do when a production was applied. -/
theorem reduce_weight (decided : Decided g t) {stack : List (Nat × α)} {symbols : List String}
    (tokens : List Token) {seen : Finset String} (renamed : Renamed g symbols seen) {k p : Nat} {w : String}
    (acts : t.action? k w = some (.reduce p)) {production : Production}
    (found : g.productions[p]? = some production) (short : production.right.length ≤ stack.length)
    (matched : symbols.take production.right.length = production.right.reverse) (j : Nat) (value : α) :
    ∃ more, Renamed g (production.left :: symbols.drop production.right.length) more ∧
      weight g ((j, value) :: stack.drop production.right.length) tokens more <
        weight g stack tokens seen := by
  have left : (((j, value) :: stack.drop production.right.length : List (Nat × α))).length =
      stack.length - production.right.length + 1 := by
    rw [List.length_cons, List.length_drop]
  have nonempty : 0 < production.right.length := List.length_pos_iff.mpr production.right_ne_nil
  rcases Nat.lt_or_ge 1 production.right.length with long | one
  · exact ⟨∅, .none g _, weight_lt_of_shrinks seen (by rw [left]; omega)⟩
  · obtain ⟨s, single⟩ := List.length_eq_one_iff.mp (Nat.le_antisymm one nonempty)
    obtain ⟨_, _, explicit, _, _⟩ := decided.expects_of_reduce acts
    rw [single] at matched
    obtain ⟨rest, rfl⟩ : ∃ rest, symbols = s :: rest := by
      cases symbols with
      | nil => exact absurd matched (by simp)
      | cons first rest => exact ⟨rest, by simpa using matched⟩
    obtain ⟨new, after⟩ := renamed.rename found explicit single
      (decided.not_cycle_of_reduce acts found single) ((s :: rest).drop production.right.length)
    refine ⟨_, after, weight_lt_of_renames ?_ (Finset.card_insert_of_notMem new) after.card_le⟩
    rw [left]
    omega

/-- **A run ends before its weight is used up.** -/
theorem Stacked.exists_endsWithin (decided : Decided g t) {bound : Nat} {stack : List (Nat × α)}
    {symbols : List String} {trees : List Tree} (stacked : g.Stacked semantics stack symbols trees)
    {tokens : List Token} {seen : Finset String} (renamed : Renamed g symbols seen)
    (enough : weight g stack tokens seen < bound) :
    ∃ outcome, t.EndsWithin semantics bound ⟨stack, tokens⟩ outcome := by
  induction bound generalizing stack symbols trees tokens seen with
  | zero => exact absurd enough (Nat.not_lt_zero _)
  | succ bound ih =>
    cases tokens with
    | nil => exact ⟨_, .of_step rfl⟩
    | cons token tokens =>
      have moves := stacked.moves decided.made decided.plain token tokens
      generalize stepped : t.step semantics ⟨stack, token :: tokens⟩ = result at moves
      cases moves with
      | unexpected | refused | accepted => exact ⟨_, .of_step (by rw [stepped]; rfl)⟩
      | @shifted j isTerminal _ target =>
        have notLeft := decided.plain.unmarked.not_nonterminal_of_mem_terminals isTerminal
        have next := stacked.cons (mem_symbols.mpr (Or.inr isTerminal)) target (.leaf notLeft) rfl
        have less : weight g ((j, semantics.leaf token) :: stack) tokens ∅ <
            weight g stack (token :: tokens) seen :=
          weight_lt_of_shrinks seen (by simp only [List.length_cons]; omega)
        obtain ⟨outcome, ends⟩ := ih next (.none g _) (Nat.lt_of_lt_of_le less (Nat.le_of_lt_succ enough))
        exact ⟨outcome, ends.prepend stepped⟩
      | @reduced p j production value acts found short matched target folded =>
        have next := stacked.reduce found matched target folded
        obtain ⟨more, renamedMore, less⟩ := reduce_weight decided (token :: tokens) renamed acts found
          short matched j value
        obtain ⟨outcome, ends⟩ := ih next renamedMore (Nat.lt_of_lt_of_le less (Nat.le_of_lt_succ enough))
        exact ⟨outcome, ends.prepend stepped⟩

/-- **Parsing ends within the bound of the parser**, on every row of tokens. -/
theorem exists_endsWithin_parse (decided : Decided g t) (semantics : Semantics α ε) (tokens : List Token) :
    ∃ outcome, t.EndsWithin semantics (t.stepBound tokens.length) ⟨[], tokens⟩ outcome := by
  refine Stacked.exists_endsWithin decided .nil (.none g []) ?_
  unfold weight Table.stepBound
  rw [decided.made.nonterminals_eq, List.length_nil, Finset.card_empty, Nat.add_zero, Nat.sub_zero,
    Nat.add_mul]
  omega

end XPathAnnotator.Grammar
