/-
**Grammars that match.**

Two numbered grammars match if the one is the other with its productions and its symbols numbered differently.
Whatever the table generator computes then matches too: the items of states (`Matches.itemsOf`), the
states that symbols lead to (`Similar.target`), and the look-aheads that tracing gathers (`Similar.gathers`). Every
fact is proved from the first grammar to the second; that matching is symmetric gives the other direction.

* `exists_similar` — every state has one that is similar to it;
* `Similar.exists_mem_closure`, `Similar.exists_lookahead` — the items and look-aheads of the closures of similar
  states.
-/

import Mathlib
import XPathAnnotator.Proofs.Grammar.Gathering

namespace XPathAnnotator.Grammar

open Automaton (Explored)

/-- A production with its symbols numbered differently. -/
def NumberedProduction.renumber (τ : Equiv.Perm Nat) (p : NumberedProduction) : NumberedProduction :=
  ⟨τ p.left, p.right.map τ⟩

/-- An item with its production numbered differently. -/
def Item.renumber (σ : Equiv.Perm Nat) (item : Item) : Item := ⟨σ item.production, item.dot⟩

theorem Item.renumber_symm (σ : Equiv.Perm Nat) (item : Item) : (item.renumber σ).renumber σ.symm = item := by
  simp [renumber]

theorem Item.renumber_of_symm (σ : Equiv.Perm Nat) (item : Item) : (item.renumber σ.symm).renumber σ = item := by
  simp [renumber]

theorem Item.renumber_advanced (σ : Equiv.Perm Nat) (item : Item) :
    item.advanced.renumber σ = (item.renumber σ).advanced := rfl

namespace Numbered

variable {n m : Numbered} {σ τ : Equiv.Perm Nat}

/-- A grammar is another one with productions and symbols numbered differently. -/
structure Matches (n m : Numbered) (σ τ : Equiv.Perm Nat) : Prop where
  productions : ∀ k, m.productions[σ k]? = n.productions[k]?.map (·.renumber τ)
  nonterminal : ∀ x, τ x < m.nonterminalCount ↔ x < n.nonterminalCount
  terminal : ∀ x, τ x ∈ m.terminal ↔ x ∈ n.terminal
  endMark : τ n.endMark = m.endMark
  placeholder : τ n.placeholder = m.placeholder
  implicit : σ 0 = 0

namespace Matches

theorem symm (matched : n.Matches m σ τ) : m.Matches n σ.symm τ.symm := by
  refine ⟨fun k => ?_, fun x => ?_, fun x => ?_, ?_, ?_, ?_⟩
  · have same := matched.productions (σ.symm k)
    rw [Equiv.apply_symm_apply] at same
    rw [same, Option.map_map]
    have back : (NumberedProduction.renumber τ.symm ∘ NumberedProduction.renumber τ) = id := by
      funext p
      simp [NumberedProduction.renumber, Function.comp_def]
    rw [back, Option.map_id]
    rfl
  · rw [← matched.nonterminal, Equiv.apply_symm_apply]
  · rw [← matched.terminal, Equiv.apply_symm_apply]
  · rw [← matched.endMark, Equiv.symm_apply_apply]
  · rw [← matched.placeholder, Equiv.symm_apply_apply]
  · rw [Equiv.symm_apply_eq, matched.implicit]

theorem found (matched : n.Matches m σ τ) {k : Nat} {p : NumberedProduction}
    (found : n.productions[k]? = some p) : m.productions[σ k]? = some (p.renumber τ) := by
  rw [matched.productions, found, Option.map_some]

theorem nextSymbol? (matched : n.Matches m σ τ) (item : Item) :
    m.nextSymbol? (item.renumber σ) = (n.nextSymbol? item).map τ := by
  unfold Numbered.nextSymbol? Item.renumber
  rw [matched.productions]
  cases n.productions[item.production]? with
  | none => rfl
  | some p => exact List.getElem?_map

theorem next (matched : n.Matches m σ τ) {item : Item} {x : Nat} (next : n.nextSymbol? item = some x) :
    m.nextSymbol? (item.renumber σ) = some (τ x) := by
  rw [matched.nextSymbol?, next, Option.map_some]

theorem restAfterNext (matched : n.Matches m σ τ) (item : Item) :
    m.restAfterNext (item.renumber σ) = (n.restAfterNext item).map τ := by
  unfold Numbered.restAfterNext Item.renumber
  rw [matched.productions]
  cases n.productions[item.production]? with
  | none => rfl
  | some p => exact (List.map_drop).symm

theorem starts (matched : n.Matches m σ τ) {s x : Nat} (starts : n.Starts s x) : m.Starts (τ s) (τ x) := by
  induction starts with
  | terminal isTerminal => exact .terminal ((matched.terminal _).mpr isTerminal)
  | @production k p s rest x found shape _ ih =>
    have begins : (p.renumber τ).right = τ s :: rest.map τ := by simp [NumberedProduction.renumber, shape]
    exact .production (matched.found found) begins ih

theorem follows (matched : n.Matches m σ τ) {y x : Nat} {rest : List Nat} (follows : n.Follows y rest x) :
    m.Follows (τ y) (rest.map τ) (τ x) := by
  cases follows with
  | inherited => exact .inherited
  | started starts => exact .started (matched.starts starts)

/-! ### The items of a state -/

theorem reaches (matched : n.Matches m σ τ) {kernel other : List Item}
    (sub : ∀ item ∈ kernel, item.renumber σ ∈ other) {b : Nat} (reaches : n.Reaches kernel b) :
    m.Reaches other (τ b) := by
  induction reaches with
  | kernel member next below => exact .kernel (sub _ member) (matched.next next) ((matched.nonterminal _).mpr below)
  | @production k p a found _ head below ih =>
    refine .production (p := p.renumber τ) (matched.found found) ih ?_ ((matched.nonterminal _).mpr below)
    simp [NumberedProduction.renumber, head]

theorem mem_itemsOf_of (matched : n.Matches m σ τ) {kernel other : List Item}
    (sub : ∀ item ∈ kernel, item.renumber σ ∈ other) {item : Item} (member : item ∈ n.itemsOf kernel) :
    item.renumber σ ∈ m.itemsOf other := by
  rw [Numbered.mem_itemsOf] at member ⊢
  rcases member with inKernel | ⟨atStart, p, found, reaches⟩
  · exact .inl (sub item inKernel)
  · exact .inr ⟨atStart, _, matched.found found, matched.reaches sub reaches⟩

end Matches

/-- A list of items is another one with the productions numbered differently. -/
def SameItems (σ : Equiv.Perm Nat) (kernel other : List Item) : Prop :=
  ∀ item, item.renumber σ ∈ other ↔ item ∈ kernel

theorem SameItems.symm {kernel other : List Item} (same : SameItems σ kernel other) :
    SameItems σ.symm other kernel := by
  intro item
  rw [← same, Item.renumber_of_symm]

/-- **The items of states whose kernels match.** -/
theorem Matches.itemsOf (matched : n.Matches m σ τ) {kernel other : List Item}
    (same : SameItems σ kernel other) : SameItems σ (n.itemsOf kernel) (m.itemsOf other) := by
  intro item
  constructor
  · intro member
    have back := matched.symm.mem_itemsOf_of (fun item member => (same.symm item).mpr member) member
    rw [Item.renumber_symm] at back
    exact back
  · exact matched.mem_itemsOf_of fun item member => (same item).mpr member

/-- **Reading symbols that match** leads to kernels that match. -/
theorem Matches.advance (matched : n.Matches m σ τ) {items others : List Item} (same : SameItems σ items others)
    (x : Nat) : SameItems σ (n.advance items x) (m.advance others (τ x)) := by
  intro item
  rw [mem_advance, mem_advance]
  constructor
  · rintro ⟨origin, member, next, advanced⟩
    refine ⟨origin.renumber σ.symm, (same.symm origin).mpr member, ?_, ?_⟩
    · rw [matched.symm.next next, Equiv.symm_apply_apply]
    · rw [← Item.renumber_advanced, ← advanced, Item.renumber_symm]
  · rintro ⟨origin, member, next, rfl⟩
    exact ⟨origin.renumber σ, (same origin).mpr member, matched.next next, Item.renumber_advanced σ origin⟩

/-! ### Look-aheads -/

/-- What a kernel with look-aheads has, another one has under the other numbers. -/
def Handed (σ τ : Equiv.Perm Nat) (kernel other : List (Item × SymbolSet)) : Prop :=
  ∀ item lookaheads, (item, lookaheads) ∈ kernel →
    ∃ more, (item.renumber σ, more) ∈ other ∧ ∀ y : Nat, y ∈ lookaheads → τ y ∈ more

namespace Matches

variable {kernel other : List (Item × SymbolSet)}

theorem spreads (matched : n.Matches m σ τ) (handed : Handed σ τ kernel other) {b x : Nat}
    (spreads : n.Spreads kernel b x) : m.Spreads other (τ b) (τ x) := by
  induction spreads with
  | @kernel item lookaheads b y x member next below expected follows =>
    obtain ⟨more, inOther, holds⟩ := handed item lookaheads member
    refine .kernel inOther (matched.next next) ((matched.nonterminal _).mpr below) (holds y expected) ?_
    rw [matched.restAfterNext]
    exact matched.follows follows
  | @production k p b rest y x found shape below _ follows ih =>
    have begins : (p.renumber τ).right = τ b :: rest.map τ := by simp [NumberedProduction.renumber, shape]
    exact .production (matched.found found) begins ((matched.nonterminal _).mpr below) ih (matched.follows follows)

theorem opens (matched : n.Matches m σ τ) (handed : Handed σ τ kernel other) {b : Nat} (opens : n.Opens kernel b) :
    m.Opens other (τ b) := by
  obtain ⟨below, ⟨pair, member, next⟩ | ⟨k, p, y, found, head, spreads⟩⟩ := opens
  · obtain ⟨more, inOther, _⟩ := handed pair.1 pair.2 member
    exact ⟨(matched.nonterminal _).mpr below, .inl ⟨_, inOther, matched.next next⟩⟩
  · refine ⟨(matched.nonterminal _).mpr below,
      .inr ⟨σ k, _, τ y, matched.found found, ?_, matched.spreads handed spreads⟩⟩
    simp [NumberedProduction.renumber, head]

theorem closes (matched : n.Matches m σ τ) (handed : Handed σ τ kernel other) {item : Item} {x : Nat}
    (closes : n.Closes kernel item x) : m.Closes other (item.renumber σ) (τ x) := by
  rcases closes with ⟨lookaheads, member, expected⟩ | ⟨atStart, p, found, spreads⟩
  · obtain ⟨more, inOther, holds⟩ := handed item lookaheads member
    exact .inl ⟨more, inOther, holds x expected⟩
  · exact .inr ⟨atStart, _, matched.found found, matched.spreads handed spreads⟩

/-- A kernel item with the placeholder. -/
theorem handed_traced (matched : n.Matches m σ τ) (origin : Item) :
    Handed σ τ [(origin, .singleton n.placeholder)] [(origin.renumber σ, .singleton m.placeholder)] := by
  intro item lookaheads member
  obtain ⟨rfl, rfl⟩ := Prod.mk.inj (List.mem_singleton.mp member)
  refine ⟨_, List.mem_singleton_self _, fun y expected => ?_⟩
  rw [SymbolSet.mem_singleton.mp expected, matched.placeholder]
  exact SymbolSet.mem_singleton.mpr rfl

end Matches

end Numbered

/-! ### Similar states -/

/-- Two grammars that match, with their automata. -/
structure Paired (n m : Numbered) (a b : Automaton) (σ τ : Equiv.Perm Nat) : Prop where
  matched : n.Matches m σ τ
  proper : n.Proper
  explored : Explored n a
  properOther : m.Proper
  exploredOther : Explored m b

/-- Two states whose kernels match. -/
def Similar (σ : Equiv.Perm Nat) (a b : Automaton) (k k' : Nat) : Prop :=
  ∃ kernel other, a.kernels[k]? = some kernel ∧ b.kernels[k']? = some other ∧ Numbered.SameItems σ kernel other

section Similar

variable {n m : Numbered} {a b : Automaton} {σ τ : Equiv.Perm Nat} {k k' : Nat}

theorem Paired.symm (paired : Paired n m a b σ τ) : Paired m n b a σ.symm τ.symm :=
  ⟨paired.matched.symm, paired.properOther, paired.exploredOther, paired.proper, paired.explored⟩

theorem Similar.symm (similar : Similar σ a b k k') : Similar σ.symm b a k' k := by
  obtain ⟨kernel, other, atState, atOther, same⟩ := similar
  exact ⟨other, kernel, atOther, atState, same.symm⟩

/-- The first states are similar. -/
theorem Paired.start (paired : Paired n m a b σ τ) : Similar σ a b 0 0 := by
  refine ⟨_, _, paired.explored.start, paired.exploredOther.start, fun item => ?_⟩
  obtain ⟨p, dot⟩ := item
  have implicit := paired.matched.implicit
  simp only [List.mem_singleton, Item.renumber, Item.mk.injEq]
  refine and_congr_left fun _ => ⟨fun zero => σ.injective (zero.trans implicit.symm), ?_⟩
  rintro rfl
  exact implicit

/-- A state has one that is similar to it at most. -/
theorem Paired.unique (paired : Paired n m a b σ τ) {k'' : Nat} (one : Similar σ a b k k')
    (other : Similar σ a b k k'') : k' = k'' := by
  obtain ⟨kernel, first, atState, atFirst, sameFirst⟩ := one
  obtain ⟨kernel', second, atState', atSecond, sameSecond⟩ := other
  obtain rfl := Option.some.inj (atState.symm.trans atState')
  obtain rfl : first = second := by
    refine (paired.exploredOther.good_of atFirst).ascending.ext (paired.exploredOther.good_of atSecond).ascending
      fun item => ?_
    rw [← Item.renumber_of_symm σ item, sameFirst, sameSecond]
  exact paired.exploredOther.state_inj atFirst atSecond

/-- **Symbols that match lead from similar states to similar states.** -/
theorem Similar.target (paired : Paired n m a b σ τ) (similar : Similar σ a b k k') {x j : Nat}
    (target : a.target? k x = some j) : ∃ j', b.target? k' (τ x) = some j' ∧ Similar σ a b j j' := by
  obtain ⟨kernel, other, atState, atOther, same⟩ := similar
  obtain ⟨_, nonempty, reached⟩ := (paired.explored.target_iff atState).mp target
  have sameItems := paired.matched.itemsOf same
  have sameNext := paired.matched.advance sameItems x
  obtain ⟨advanced, member⟩ := List.exists_mem_of_ne_nil _ nonempty
  obtain ⟨item, inItems, next, rfl⟩ := Numbered.mem_advance.mp member
  obtain ⟨j', target', _⟩ := paired.exploredOther.target_of_next paired.properOther atOther
    ((sameItems item).mpr inItems) (paired.matched.next next)
  obtain ⟨_, _, reached'⟩ := (paired.exploredOther.target_iff atOther).mp target'
  exact ⟨j', target', _, _, reached, reached', sameNext⟩

/-- A symbol leads to similar states, or nowhere from either. -/
theorem Similar.rel_target (paired : Paired n m a b σ τ) (similar : Similar σ a b k k') (x : Nat) :
    Option.Rel (Similar σ a b) (a.target? k x) (b.target? k' (τ x)) := by
  cases target : a.target? k x with
  | some j =>
    obtain ⟨j', target', reached⟩ := similar.target paired target
    rw [target']
    exact .some reached
  | none =>
    cases target' : b.target? k' (τ x) with
    | none => exact .none
    | some j' =>
      obtain ⟨j, back, _⟩ := similar.symm.target paired.symm target'
      rw [Equiv.symm_apply_apply, target] at back
      exact absurd back (by simp)

/-- **Every state has one that is similar to it.** -/
theorem Paired.exists_similar (paired : Paired n m a b σ τ) {k : Nat} (inside : k < a.kernels.size) :
    ∃ k', Similar σ a b k k' := by
  induction k using Nat.strong_induction_on with
  | _ k ih =>
    rcases Nat.eq_zero_or_pos k with rfl | positive
    · exact ⟨0, paired.start⟩
    · obtain ⟨j, earlier, x, target⟩ := paired.explored.origin k positive inside
      obtain ⟨j', similar⟩ := ih j earlier (Nat.lt_trans earlier inside)
      obtain ⟨k', _, reached⟩ := similar.target paired target
      exact ⟨k', reached⟩

/-- The step that continues an item has its match. -/
theorem Similar.steps (paired : Paired n m a b σ τ) (similar : Similar σ a b k k') {item : Item} {j : Nat}
    (steps : a.Steps n k item j) : ∃ j', b.Steps m k' (item.renumber σ) j' ∧ Similar σ a b j j' := by
  obtain ⟨x, next, target⟩ := steps
  obtain ⟨j', target', reached⟩ := similar.target paired target
  exact ⟨j', ⟨τ x, paired.matched.next next, target'⟩, reached⟩

/-- What tracing finds has its match. -/
theorem Carries.similar (paired : Paired n m a b σ τ) (similar : Similar σ a b k k') {origin item : Item} {x j : Nat}
    (carries : Carries n a k origin item x j) :
    ∃ j', Carries m b k' (origin.renumber σ) (item.renumber σ) (τ x) j' ∧ Similar σ a b j j' := by
  obtain ⟨kernel, atState, member⟩ := carries.atState
  obtain ⟨j', steps', reached⟩ := similar.steps paired carries.steps
  obtain ⟨kernel', other, atState', atOther, same⟩ := similar
  obtain rfl := Option.some.inj (atState.symm.trans atState')
  exact ⟨j', ⟨⟨other, atOther, (same origin).mpr member⟩,
    paired.matched.closes (paired.matched.handed_traced origin) carries.closes, steps'⟩, reached⟩

/-- **What is gathered in a state is gathered in one that is similar to it.** -/
theorem Gathers.exists_similar (paired : Paired n m a b σ τ) {item : Item} {x : Nat} (gathers : Gathers n a k item x) :
    ∃ k', Similar σ a b k k' ∧ Gathers m b k' (item.renumber σ) (τ x) := by
  induction gathers with
  | start =>
    refine ⟨0, paired.start, ?_⟩
    rw [paired.matched.endMark, Item.renumber, paired.matched.implicit]
    exact .start
  | @found k j x origin item carries notPlaceholder =>
    obtain ⟨kernel, atState, _⟩ := carries.atState
    obtain ⟨k', similar⟩ := paired.exists_similar (Array.getElem?_eq_some_iff.mp atState).1
    obtain ⟨j', carries', reached⟩ := carries.similar paired similar
    refine ⟨j', reached, .found carries' ?_⟩
    rw [← paired.matched.placeholder]
    exact fun same => notPlaceholder (τ.injective same)
  | @inherited k j x origin item _ carries ih =>
    obtain ⟨k', similar, gathers'⟩ := ih
    obtain ⟨j', carries', reached⟩ := carries.similar paired similar
    rw [paired.matched.placeholder] at carries'
    exact ⟨j', reached, .inherited gathers' carries'⟩

theorem Similar.gathers (paired : Paired n m a b σ τ) (similar : Similar σ a b k k') {item : Item} {x : Nat}
    (gathers : Gathers n a k item x) : Gathers m b k' (item.renumber σ) (τ x) := by
  obtain ⟨k'', reached, gathers'⟩ := gathers.exists_similar paired
  rw [paired.unique similar reached]
  exact gathers'

/-- The kernels of similar states with their look-aheads. -/
theorem Similar.handed (paired : Paired n m a b σ τ) (similar : Similar σ a b k k') :
    Numbered.Handed σ τ (kernelLookaheads n a k) (kernelLookaheads m b k') := by
  obtain ⟨kernel, other, atState, atOther, same⟩ := similar
  intro item lookaheads member
  rw [kernelLookaheads_eq atState] at member
  obtain ⟨origin, inKernel, pair⟩ := List.mem_map.mp member
  obtain ⟨rfl, rfl⟩ := Prod.mk.inj pair
  rw [kernelLookaheads_eq atOther]
  have inOther := (same origin).mpr inKernel
  refine ⟨_, List.mem_map.mpr ⟨_, inOther, rfl⟩, fun y expected => ?_⟩
  rw [mem_lookaheadSet_iff_gathers paired.proper paired.explored atState inKernel] at expected
  rw [mem_lookaheadSet_iff_gathers paired.properOther paired.exploredOther atOther inOther]
  exact Similar.gathers paired ⟨kernel, other, atState, atOther, same⟩ expected

/-- **The items of the closures of similar states.** -/
theorem Similar.exists_mem_closure (paired : Paired n m a b σ τ) (similar : Similar σ a b k k') {item : Item}
    (member : ∃ lookaheads, (item, lookaheads) ∈ n.closure n.first (kernelLookaheads n a k)) :
    ∃ lookaheads, (item.renumber σ, lookaheads) ∈ m.closure m.first (kernelLookaheads m b k') := by
  have handed := similar.handed paired
  obtain ⟨kernel, other, atState, atOther, same⟩ := similar
  rw [Numbered.exists_mem_closure paired.proper (fit_kernelLookaheads paired.proper paired.explored atState),
    map_fst_kernelLookaheads atState] at member
  rw [Numbered.exists_mem_closure paired.properOther
    (fit_kernelLookaheads paired.properOther paired.exploredOther atOther), map_fst_kernelLookaheads atOther]
  rcases member with inKernel | ⟨atStart, p, found, opens⟩
  · exact .inl ((same item).mpr inKernel)
  · exact .inr ⟨atStart, _, paired.matched.found found, paired.matched.opens handed opens⟩

/-- **The look-aheads of the closures of similar states.** -/
theorem Similar.exists_lookahead (paired : Paired n m a b σ τ) (similar : Similar σ a b k k') {item : Item} {x : Nat}
    (member : ∃ lookaheads, (item, lookaheads) ∈ n.closure n.first (kernelLookaheads n a k) ∧ x ∈ lookaheads) :
    ∃ lookaheads, (item.renumber σ, lookaheads) ∈ m.closure m.first (kernelLookaheads m b k') ∧
      τ x ∈ lookaheads := by
  have handed := similar.handed paired
  obtain ⟨kernel, other, atState, atOther, _⟩ := similar
  rw [Numbered.mem_closure_lookaheads paired.proper
    (fit_kernelLookaheads paired.proper paired.explored atState)] at member
  rw [Numbered.mem_closure_lookaheads paired.properOther
    (fit_kernelLookaheads paired.properOther paired.exploredOther atOther)]
  exact paired.matched.closes handed member

end Similar

end XPathAnnotator.Grammar
