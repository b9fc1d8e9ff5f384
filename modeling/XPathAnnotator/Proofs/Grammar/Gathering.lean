/-
**What the look-aheads of a state are in every grammar.**

The terminals that are expected after an item are its look-aheads only where every symbol derives some text.
Without that condition the tables are made from what tracing gathers: a production starts within a state if its
left side is next in the kernel, or first in a production that has a look-ahead there (`Opens`), and a look-ahead
is gathered if tracing finds it or hands it on (`Gathers`).

While an item is traced the placeholder stands for its look-aheads. Any number that is no terminal may serve: what
spreads from one placeholder spreads from another, and a terminal that arises on the way arises with both.

* `mem_spread_reached`, `exists_mem_closure` — the items of the closure of a state;
* `mem_lookaheadSet_iff_gathers` — the look-aheads of its kernel items;
* `Automaton.of_marked`, `Gathers.marked` — neither the automaton nor what is gathered depends on the placeholder;
* `kernelLookaheads_marked` — **the look-aheads of states are the same with every placeholder that is no terminal.**
-/

import Mathlib
import XPathAnnotator.Proofs.Grammar.Cells

namespace XPathAnnotator.Grammar

open Automaton (Explored)

namespace Numbered

variable {g : Numbered}

/-! ### What starts within a state -/

/-- The productions of a nonterminal start in the closure of a kernel with look-aheads: it is next in the kernel,
or first in a production that has a look-ahead. -/
def Opens (g : Numbered) (kernel : List (Item × SymbolSet)) (b : Nat) : Prop :=
  b < g.nonterminalCount ∧
    ((∃ pair ∈ kernel, g.nextSymbol? pair.1 = some b) ∨
      ∃ (k : Nat) (p : NumberedProduction) (y : Nat), g.productions[k]? = some p ∧ p.right.head? = some b ∧
        g.Spreads kernel p.left y)

/-- What is reached of a row that has grown is still there. -/
theorem mem_reached_of_grows {first second : Spread} (grows : Grows first.row second.row) {b : Nat}
    (member : b ∈ first.reached) : b ∈ second.reached := by
  have sizes := grows.size_eq
  simp only [Spread.row, Array.size_push] at sizes
  have carried := grows.mem first.lookaheads.size b (mem_setAt_push.mpr (.inr ⟨rfl, member⟩))
  rw [Spread.row, mem_setAt_push] at carried
  rcases carried with inRow | ⟨_, inReached⟩
  · have inside := lt_size_of_mem inRow
    omega
  · exact inReached

/-- Nothing is reached that does not start in the closure. -/
theorem opens_of_mem_spread_reached (proper : g.Proper) {kernel : List (Item × SymbolSet)} {b : Nat}
    (member : b ∈ (g.spread g.first kernel).reached) : g.Opens kernel b := by
  let Right (s : Spread) : Prop := g.Sound kernel s ∧ ∀ b ∈ s.reached, g.Opens kernel b
  have seeds : Right (g.spreadSeeds g.first kernel) := by
    refine ⟨sound_seeds proper kernel, ?_⟩
    rw [spreadSeeds_eq]
    refine foldl_induction (P := fun s : Spread => ∀ b ∈ s.reached, g.Opens kernel b) ?_ ?_
    · intro s pair inKernel holds b member
      rcases mem_note_reached.mp member with old | ⟨next, below⟩
      · exact holds b old
      · exact ⟨below, .inl ⟨pair, inKernel, next⟩⟩
    · exact fun b none => absurd none (SymbolSet.not_mem_empty b)
  have right : Right (g.spread g.first kernel) := by
    refine saturate_induction (P := Right) ?_ _ seeds
    intro s holds
    rw [spreadStep_eq]
    refine foldl_induction (P := Right) ?_ holds
    rintro s p inList ⟨sound, opens⟩
    obtain ⟨k, inside, rfl⟩ := List.getElem_of_mem inList
    have found : g.productions[k]? = some g.productions.toList[k] := by simp
    refine ⟨sound.update proper found, fun b member => ?_⟩
    unfold spreadUpdate at member
    split at member
    · exact opens b member
    · rename_i notEmpty
      obtain ⟨y, some⟩ := SymbolSet.isEmpty_eq_false_iff.mp (Bool.not_eq_true _ ▸ notEmpty)
      rcases mem_note_reached.mp member with old | ⟨head, below⟩
      · exact opens b old
      · exact ⟨below, .inr ⟨k, _, y, found, head, sound.spreads _ y some⟩⟩
  exact right.2 b member

/-- **What is reached** is what starts in the closure. -/
theorem mem_spread_reached (proper : g.Proper) {kernel : List (Item × SymbolSet)} (fit : g.Fit kernel) {b : Nat} :
    b ∈ (g.spread g.first kernel).reached ↔ g.Opens kernel b := by
  refine ⟨opens_of_mem_spread_reached proper, ?_⟩
  rintro ⟨below, ⟨pair, inKernel, next⟩ | ⟨k, p, y, found, head, spreads⟩⟩
  · refine saturate_induction (P := fun s : Spread => b ∈ s.reached) ?_ _ ?_
    · exact fun s old => mem_reached_of_grows (grows_spreadStep g.first s) old
    · obtain ⟨before, after, rfl⟩ := List.append_of_mem inKernel
      rw [spreadSeeds_eq, List.foldl_append, List.foldl_cons]
      refine mem_reached_of_grows (grows_foldl Spread.row (grows_seedUpdate g.first) after _) ?_
      exact mem_note_reached.mpr (.inr ⟨next, below⟩)
  · have fixed := spreadStep_spread proper fit.few
    rw [spreadStep_eq] at fixed
    have member : p ∈ g.productions.toList := by
      rw [Array.mem_toList_iff]
      exact Array.mem_of_getElem? found
    rw [← update_eq_of_foldl_eq Spread.row Spread.row_injective (grows_spreadUpdate g.first) fixed p member]
    unfold spreadUpdate
    rw [if_neg (Bool.not_eq_true _ ▸ SymbolSet.isEmpty_eq_false_iff.mpr ⟨y, (mem_spread proper fit.few).mpr spreads⟩)]
    exact mem_note_reached.mpr (.inr ⟨head, below⟩)

/-- **The items of the closure** are those of the kernel and the productions that start. -/
theorem exists_mem_closure (proper : g.Proper) {kernel : List (Item × SymbolSet)} (fit : g.Fit kernel)
    {item : Item} :
    (∃ lookaheads, (item, lookaheads) ∈ g.closure g.first kernel) ↔ item ∈ kernel.map Prod.fst ∨
      (item.dot = 0 ∧ ∃ p, g.productions[item.production]? = some p ∧ g.Opens kernel p.left) := by
  simp only [mem_closure proper fit, mem_spread_reached proper fit]
  constructor
  · rintro ⟨lookaheads, inKernel | ⟨atStart, p, found, opens, _⟩⟩
    · exact .inl (List.mem_map_of_mem inKernel)
    · exact .inr ⟨atStart, p, found, opens⟩
  · rintro (inKernel | ⟨atStart, p, found, opens⟩)
    · obtain ⟨⟨_, lookaheads⟩, member, rfl⟩ := List.mem_map.mp inKernel
      exact ⟨lookaheads, .inl member⟩
    · exact ⟨_, .inr ⟨atStart, p, found, opens, rfl⟩⟩

end Numbered

/-! ### What tracing gathers -/

variable {g : Numbered} {a : Automaton}

/-- Tracing a kernel item of a state with the placeholder finds a look-ahead of an item that another state
continues. -/
structure Carries (g : Numbered) (a : Automaton) (k : Nat) (origin item : Item) (x j : Nat) : Prop where
  atState : ∃ kernel, a.kernels[k]? = some kernel ∧ origin ∈ kernel
  closes : g.Closes [(origin, .singleton g.placeholder)] item x
  steps : a.Steps g k item j

/-- The look-aheads that tracing finds for the kernel items of states, and those that are handed on. -/
inductive Gathers (g : Numbered) (a : Automaton) : Nat → Item → Nat → Prop
  | start : Gathers g a 0 ⟨0, 0⟩ g.endMark
  | found {k j x : Nat} {origin item : Item} :
      Carries g a k origin item x j → x ≠ g.placeholder → Gathers g a j item.advanced x
  | inherited {k j x : Nat} {origin item : Item} :
      Gathers g a k origin x → Carries g a k origin item g.placeholder j → Gathers g a j item.advanced x

theorem Carries.exists_meets (proper : g.Proper) (explored : Explored g a) {k j x : Nat} {origin item : Item}
    (carries : Carries g a k origin item x j) :
    ∃ lookaheads, Meets g a k origin item lookaheads j ∧ x ∈ lookaheads := by
  obtain ⟨kernel, atState, member⟩ := carries.atState
  exact Grammar.exists_meets proper explored atState member carries.closes carries.steps

/-- **The look-aheads of kernel items** are those that tracing gathers. -/
theorem mem_lookaheadSet_iff_gathers (proper : g.Proper) (explored : Explored g a) {k x : Nat} {kernel : List Item}
    (atState : a.kernels[k]? = some kernel) {item : Item} (inKernel : item ∈ kernel) :
    x ∈ lookaheadSet g a k item ↔ Gathers g a k item x := by
  constructor
  · exact lookaheadSet_induction proper explored .start
      (fun meets expected notPlaceholder =>
        .found ⟨meets.atState, meets.closes proper explored expected, meets.steps⟩ notPlaceholder)
      (fun meets expected known =>
        .inherited known ⟨meets.atState, meets.closes proper explored expected, meets.steps⟩) atState inKernel
  · intro gathers
    clear atState inKernel
    induction gathers with
    | start => exact endMark_mem_lookaheadSet explored
    | found carries notPlaceholder =>
      obtain ⟨lookaheads, meets, expected⟩ := carries.exists_meets proper explored
      exact meets.found proper explored expected notPlaceholder
    | inherited _ carries known =>
      obtain ⟨lookaheads, meets, expected⟩ := carries.exists_meets proper explored
      exact meets.handed proper explored expected known

/-- A grammar with another placeholder. -/
def Numbered.marked (g : Numbered) (c : Nat) : Numbered := { g with placeholder := c }

variable {c : Nat}

@[simp] theorem Numbered.terminal_marked : (g.marked c).terminal = g.terminal := rfl

@[simp] theorem Numbered.nextSymbol?_marked (item : Item) : (g.marked c).nextSymbol? item = g.nextSymbol? item := rfl

/-! ### Other placeholders: the automaton -/

namespace Automaton

theorem expand_marked (items : List Item) (kernels : Array (List Item)) (symbols : List Nat) :
    expand (g.marked c) items kernels symbols = expand g items kernels symbols := by
  induction symbols generalizing kernels with
  | nil => rfl
  | cons symbol symbols ih =>
    rw [expand, expand, show (g.marked c).advance items symbol = g.advance items symbol from rfl]
    split
    · exact ih kernels
    · dsimp only
      rw [ih]

theorem explore_marked (a : Automaton) (fuel : Nat) : explore (g.marked c) a fuel = explore g a fuel := by
  induction fuel generalizing a with
  | zero => rfl
  | succ fuel ih =>
    rw [explore, explore]
    split
    · rfl
    · rename_i kernel next
      rw [expand_marked, show (g.marked c).itemsOf kernel = g.itemsOf kernel from rfl,
        show (g.marked c).symbolCount = g.symbolCount from rfl]
      dsimp only
      rw [ih]

/-- **The automaton does not know the placeholder.** -/
theorem of_marked : Automaton.of (g.marked c) = Automaton.of g := explore_marked _ _

end Automaton

/-! ### Other placeholders: what spreads -/

namespace Numbered

theorem Starts.marked {s x : Nat} (starts : g.Starts s x) : (g.marked c).Starts s x := by
  induction starts with
  | terminal isTerminal => exact .terminal isTerminal
  | production found shape _ ih => exact .production (g := g.marked c) found shape ih

/-- What follows is a terminal that follows anything, or what is expected after the whole production. -/
theorem Follows.marked {y x : Nat} {rest : List Nat} (follows : g.Follows y rest x) (z : Nat) :
    (x ∈ g.terminal ∧ (g.marked c).Follows z rest x) ∨ (x = y ∧ (g.marked c).Follows z rest z) := by
  cases follows with
  | inherited => exact .inr ⟨rfl, .inherited⟩
  | started starts => exact .inl ⟨starts.mem_terminal, .started starts.marked⟩

/-- **What spreads from one mark spreads from another**: the mark itself, or a terminal that arises on the way. -/
theorem Spreads.marked {origin : Item} {y b x : Nat} (spreads : g.Spreads [(origin, .singleton y)] b x) (z : Nat) :
    (x ∈ g.terminal ∧ (g.marked c).Spreads [(origin, .singleton z)] b x) ∨
      (x = y ∧ (g.marked c).Spreads [(origin, .singleton z)] b z) := by
  induction spreads with
  | @kernel item lookaheads b u x member next below expected follows =>
    obtain ⟨rfl, rfl⟩ := Prod.mk.inj (List.mem_singleton.mp member)
    obtain rfl := SymbolSet.mem_singleton.mp expected
    have handsOn : ∀ v, (g.marked c).Follows z (g.restAfterNext item) v →
        (g.marked c).Spreads [(item, .singleton z)] b v := fun v =>
      .kernel (g := g.marked c) (List.mem_singleton_self _) next below (SymbolSet.mem_singleton.mpr rfl)
    exact (follows.marked z).imp (And.imp_right (handsOn x)) (And.imp_right (handsOn z))
  | @production k p b rest u x found shape below _ follows ih =>
    have handsOn : ∀ v w, (g.marked c).Spreads [(origin, .singleton z)] p.left v →
        (g.marked c).Follows v rest w → (g.marked c).Spreads [(origin, .singleton z)] b w := fun v w =>
      .production (g := g.marked c) found shape below
    rcases ih with ⟨isTerminal, spreads⟩ | ⟨rfl, spreads⟩
    · refine .inl ⟨follows.mem_terminal isTerminal, handsOn u x spreads ?_⟩
      rcases follows.marked (c := c) u with ⟨_, same⟩ | ⟨rfl, same⟩
      · exact same
      · exact same
    · exact (follows.marked z).imp (And.imp_right (handsOn z x spreads)) (And.imp_right (handsOn z z spreads))

/-- What is expected in the closure of a traced item with one mark is expected with another. -/
theorem Closes.marked {origin item : Item} {y x : Nat} (closes : g.Closes [(origin, .singleton y)] item x) (z : Nat) :
    (x ∈ g.terminal ∧ (g.marked c).Closes [(origin, .singleton z)] item x) ∨
      (x = y ∧ (g.marked c).Closes [(origin, .singleton z)] item z) := by
  rcases closes with ⟨lookaheads, member, expected⟩ | ⟨atStart, p, found, spreads⟩
  · obtain ⟨rfl, rfl⟩ := Prod.mk.inj (List.mem_singleton.mp member)
    exact .inr ⟨SymbolSet.mem_singleton.mp expected,
      .inl ⟨_, List.mem_singleton_self _, SymbolSet.mem_singleton.mpr rfl⟩⟩
  · exact (spreads.marked z).imp (And.imp_right fun spreads => .inr ⟨atStart, p, found, spreads⟩)
      (And.imp_right fun spreads => .inr ⟨atStart, p, found, spreads⟩)

end Numbered

/-! ### Other placeholders: what is gathered -/

variable {k : Nat}

/-- What tracing finds with one placeholder it finds with another. -/
theorem Carries.marked {origin item : Item} {x j : Nat} (carries : Carries g a k origin item x j) :
    (x ∈ g.terminal ∧ Carries (g.marked c) a k origin item x j) ∨
      (x = g.placeholder ∧ Carries (g.marked c) a k origin item c j) :=
  (carries.closes.marked c).imp (And.imp_right fun closes => ⟨carries.atState, closes, carries.steps⟩)
    (And.imp_right fun closes => ⟨carries.atState, closes, carries.steps⟩)

/-- **What is gathered with one placeholder is gathered with another**, if neither is a terminal. -/
theorem Gathers.marked (free : g.placeholder ∉ g.terminal) (freeOther : c ∉ g.terminal) {item : Item} {x : Nat}
    (gathers : Gathers g a k item x) : Gathers (g.marked c) a k item x := by
  induction gathers with
  | start => exact Gathers.start (g := g.marked c)
  | found carries notPlaceholder =>
    rcases carries.marked (c := c) with ⟨isTerminal, carries'⟩ | ⟨same, _⟩
    · refine .found carries' ?_
      rintro rfl
      exact freeOther isTerminal
    · exact absurd same notPlaceholder
  | inherited _ carries ih =>
    rcases carries.marked (c := c) with ⟨isTerminal, _⟩ | ⟨_, carries'⟩
    · exact absurd isTerminal free
    · exact .inherited (g := g.marked c) ih carries'

/-- **The look-aheads of a state** are the same with both placeholders. -/
theorem kernelLookaheads_marked (proper : g.Proper) (properOther : (g.marked c).Proper) (k : Nat) :
    kernelLookaheads (g.marked c) (Automaton.of g) k = kernelLookaheads g (Automaton.of g) k := by
  have explored := Automaton.explored_of proper
  have exploredOther : Explored (g.marked c) (Automaton.of g) := by
    rw [← Automaton.of_marked (c := c)]
    exact Automaton.explored_of properOther
  unfold kernelLookaheads
  refine List.map_congr_left fun item member => ?_
  have inside : k < (Automaton.of g).kernels.size := by
    by_contra outside
    rw [Array.getD_eq_getD_getElem?, Array.getElem?_eq_none (Nat.le_of_not_lt outside)] at member
    exact absurd member List.not_mem_nil
  obtain ⟨kernel, atState, inKernel⟩ := exists_kernel_iff.mp ⟨List.mem_range.mpr inside, member⟩
  refine congrArg (Prod.mk item) (SymbolSet.ext fun x => ?_)
  rw [mem_lookaheadSet_iff_gathers properOther exploredOther atState inKernel,
    mem_lookaheadSet_iff_gathers proper explored atState inKernel]
  exact ⟨Gathers.marked properOther.placeholder_not_mem proper.placeholder_not_mem,
    Gathers.marked proper.placeholder_not_mem properOther.placeholder_not_mem⟩

end XPathAnnotator.Grammar
