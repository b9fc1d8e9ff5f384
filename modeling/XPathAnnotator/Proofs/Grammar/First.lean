/-
**First terminals.**

`Starts` says which terminals the texts of a symbol may begin with: a terminal begins with itself, and the
left side of a production begins like the first symbol of its right side. `Follows` says which terminals
may follow a symbol in a production, given the symbols after it and a terminal expected after the whole.

* `mem_first` — the first sets hold exactly the terminals that a symbol starts with;
* `mem_following` — the computed followers are exactly those of `Follows`.
-/

import Mathlib
import XPathAnnotator.Proofs.Grammar.Numbering

namespace XPathAnnotator.Grammar

namespace Numbered

/-- The texts of a symbol may begin with a terminal. -/
inductive Starts (g : Numbered) : Nat → Nat → Prop
  | terminal {x : Nat} : x ∈ g.terminal → Starts g x x
  | production {k : Nat} {p : NumberedProduction} {s : Nat} {rest : List Nat} {x : Nat} :
      g.productions[k]? = some p → p.right = s :: rest → Starts g s x → Starts g p.left x

/-- The terminals that may follow a symbol, given the symbols after it and a terminal expected after the
whole production. -/
inductive Follows (g : Numbered) (expected : Nat) : List Nat → Nat → Prop
  | inherited : Follows g expected [] expected
  | started {s : Nat} {rest : List Nat} {x : Nat} : Starts g s x → Follows g expected (s :: rest) x

variable {g : Numbered}

theorem Starts.mem_terminal {s x : Nat} (starts : g.Starts s x) : x ∈ g.terminal := by
  induction starts with
  | terminal member => exact member
  | production _ _ _ ih => exact ih

theorem Follows.mem_terminal {y x : Nat} {rest : List Nat} (follows : g.Follows y rest x)
    (expected : y ∈ g.terminal) : x ∈ g.terminal := by
  cases follows with
  | inherited => exact expected
  | started starts => exact starts.mem_terminal

/-! ### The first sets -/

/-- One update of the first sets: that of a production. -/
def firstUpdate (sets : Array SymbolSet) (p : NumberedProduction) : Array SymbolSet :=
  match p.right with
  | [] => sets
  | s :: _ => sets.modify p.left (·.union (setAt sets s))

theorem firstStep_eq (g : Numbered) (sets : Array SymbolSet) :
    g.firstStep sets = g.productions.toList.foldl firstUpdate sets := by
  rw [firstStep, ← Array.foldl_toList]
  rfl

theorem mem_firstUpdate {sets : Array SymbolSet} {p : NumberedProduction} {i x : Nat} :
    x ∈ setAt (firstUpdate sets p) i ↔ x ∈ setAt sets i ∨
      (i = p.left ∧ p.left < sets.size ∧ ∃ s rest, p.right = s :: rest ∧ x ∈ setAt sets s) := by
  unfold firstUpdate
  split
  · rename_i empty
    simp [empty]
  · rename_i s rest shape
    rw [mem_setAt_modify_union, shape]
    simp

theorem grows_firstUpdate (sets : Array SymbolSet) (p : NumberedProduction) :
    Grows sets (firstUpdate sets p) := by
  unfold firstUpdate
  split
  · exact Grows.refl _
  · exact Grows.modify_union _ _ _

theorem grows_firstStep (sets : Array SymbolSet) : Grows sets (g.firstStep sets) := by
  rw [firstStep_eq]
  exact grows_foldl id grows_firstUpdate g.productions.toList sets

theorem mem_firstSeeds {i x : Nat} :
    x ∈ setAt g.firstSeeds i ↔ i < g.symbolCount ∧ x ∈ g.terminal ∧ x = i := by
  by_cases inside : i < g.symbolCount
  · simp only [setAt, firstSeeds, Array.getD, List.size_toArray, List.length_map, List.length_range,
      inside, dite_true, Array.getInternal_eq_getElem, List.getElem_toArray, List.getElem_map,
      List.getElem_range, SymbolSet.contains_iff, true_and]
    split
    · rename_i isTerminal
      rw [SymbolSet.mem_singleton]
      constructor
      · rintro rfl
        exact ⟨isTerminal, rfl⟩
      · exact And.right
    · rename_i other
      constructor
      · exact fun member => absurd member (SymbolSet.not_mem_empty x)
      · rintro ⟨isTerminal, rfl⟩
        exact absurd isTerminal other
  · have beyond : setAt g.firstSeeds i = .empty :=
      setAt_eq_empty (by simpa [firstSeeds] using inside)
    simp [beyond, inside]

/-- The first sets hold nothing but first terminals. -/
theorem starts_of_mem_first {s x : Nat} (member : x ∈ setAt g.first s) : g.Starts s x := by
  have sound : ∀ s x, x ∈ setAt g.first s → g.Starts s x := by
    refine saturate_induction (P := fun sets => ∀ s x, x ∈ setAt sets s → g.Starts s x) ?_ _ ?_
    · intro sets holds
      rw [firstStep_eq]
      refine foldl_induction (P := fun sets => ∀ s x, x ∈ setAt sets s → g.Starts s x) ?_ holds
      intro sets p inList holds s x member
      obtain ⟨k, inside, rfl⟩ := List.getElem_of_mem inList
      rcases mem_firstUpdate.mp member with old | ⟨rfl, _, first, rest, shape, below⟩
      · exact holds s x old
      · exact .production (k := k) (by simp) shape (holds first x below)
    · intro s x member
      obtain ⟨_, isTerminal, rfl⟩ := mem_firstSeeds.mp member
      exact .terminal isTerminal
  exact sound s x member

theorem bounded_first (proper : g.Proper) : Bounded g.symbolCount (g.symbolCount + 1) g.first := by
  refine ⟨?_, fun s x member => ?_⟩
  · refine saturate_induction (P := fun sets : Array SymbolSet => sets.size = g.symbolCount) ?_ _ ?_
    · exact fun sets size_eq => (grows_firstStep sets).size_eq.trans size_eq
    · simp [firstSeeds]
  · have := (proper.mem_terminal.mp (starts_of_mem_first member).mem_terminal).2
    omega

theorem firstStep_first (g : Numbered) : g.firstStep g.first = g.first := by
  refine saturate_fixed id g.symbolCount (g.symbolCount + 1) Function.injective_id ?_ grows_firstStep
    ?_ ?_
  · intro sets within
    refine ⟨(grows_firstStep sets).size_eq.trans within.size_eq, ?_⟩
    show ∀ i x, x ∈ setAt (g.firstStep sets) i → x < g.symbolCount + 1
    rw [firstStep_eq]
    refine foldl_induction (P := fun sets => ∀ i x, x ∈ setAt sets i → x < g.symbolCount + 1) ?_
      within.lt_of_mem
    intro sets p _ below i x member
    rcases mem_firstUpdate.mp member with old | ⟨_, _, s, _, _, inner⟩
    · exact below i x old
    · exact below s x inner
  · refine ⟨by simp [firstSeeds], fun i x member => ?_⟩
    obtain ⟨inside, _, rfl⟩ := mem_firstSeeds.mp member
    exact Nat.lt_succ_of_lt inside
  · exact Nat.lt_succ_self _

/-- **The first sets hold exactly the first terminals.** -/
theorem mem_first (proper : g.Proper) {s x : Nat} : x ∈ setAt g.first s ↔ g.Starts s x := by
  refine ⟨starts_of_mem_first, fun starts => ?_⟩
  induction starts with
  | @terminal x isTerminal =>
    have seeded : x ∈ setAt g.firstSeeds x :=
      mem_firstSeeds.mpr ⟨(proper.mem_terminal.mp isTerminal).2, isTerminal, rfl⟩
    refine saturate_induction (P := fun sets => x ∈ setAt sets x) ?_ _ seeded
    exact fun sets member => (grows_firstStep sets).mem x x member
  | @production k p s rest x found shape _ ih =>
    have fixed := firstStep_first g
    rw [firstStep_eq] at fixed
    have member : p ∈ g.productions.toList := by
      rw [Array.mem_toList_iff]
      exact Array.mem_of_getElem? found
    have kept := update_eq_of_foldl_eq id Function.injective_id grows_firstUpdate fixed p member
    rw [← kept]
    refine mem_firstUpdate.mpr (Or.inr ⟨rfl, ?_, s, rest, shape, ih⟩)
    have := proper.left_lt found
    have := proper.nonterminalCount_le
    rw [(bounded_first proper).size_eq]
    omega

/-! ### Followers -/

/-- **The computed followers are exactly the terminals that may follow.** -/
theorem mem_following (proper : g.Proper) {rest : List Nat} {lookaheads : SymbolSet} {x : Nat} :
    x ∈ following g.first rest lookaheads ↔ ∃ y ∈ lookaheads, g.Follows y rest x := by
  unfold following
  split
  · rename_i isEmpty
    have none := SymbolSet.isEmpty_iff.mp isEmpty
    constructor
    · exact fun member => absurd member (SymbolSet.not_mem_empty x)
    · rintro ⟨y, holds, _⟩
      exact absurd holds (none y)
  · rename_i notEmpty
    obtain ⟨y, some⟩ := SymbolSet.isEmpty_eq_false_iff.mp (Bool.not_eq_true _ ▸ notEmpty)
    cases rest with
    | nil =>
      constructor
      · exact fun member => ⟨x, member, .inherited⟩
      · rintro ⟨_, holds, ⟨⟩⟩
        exact holds
    | cons s rest =>
      constructor
      · exact fun member => ⟨y, some, .started ((mem_first proper).mp member)⟩
      · rintro ⟨_, _, starts⟩
        cases starts with
        | started starts => exact (mem_first proper).mpr starts

end Numbered

end XPathAnnotator.Grammar
