/-
**Sets of symbols and their saturation.**

Membership in a set of symbols is read off its binary digits, and each operation on sets has its law.
`saturate` stops at a fixed point once its fuel exceeds the number of places that can be filled:

* `SymbolSet.mem_union`, `SymbolSet.mem_erase` and their companions — the laws of membership;
* `saturate_induction` — what a step keeps holds of the result;
* `saturate_fixed` — a step that only adds members, within `count` sets of at most `bound` symbols,
  changes the result no more.

`LoopEnds` tells loops without fuel: with what a loop ends that goes on while there is a next state.

* `loopEnds_saturate` — the loop of a step ends with its saturation if that is a fixed point.
-/

import Mathlib
import XPathAnnotator.Grammar.Numbered

namespace XPathAnnotator.Grammar

namespace SymbolSet

instance : Membership Nat SymbolSet := ⟨fun s x => s.contains x = true⟩

theorem contains_iff {s : SymbolSet} {x : Nat} : s.contains x = true ↔ x ∈ s := Iff.rfl

instance (s : SymbolSet) (x : Nat) : Decidable (x ∈ s) :=
  inferInstanceAs (Decidable (s.contains x = true))

@[simp]
theorem not_mem_empty (x : Nat) : ¬ x ∈ empty := by
  simp [← contains_iff, contains, empty]

@[simp]
theorem mem_singleton {x y : Nat} : x ∈ singleton y ↔ x = y := by
  simp [← contains_iff, contains, singleton, Nat.one_shiftLeft, Nat.testBit_two_pow, eq_comm]

@[simp]
theorem mem_union {s t : SymbolSet} {x : Nat} : x ∈ s.union t ↔ x ∈ s ∨ x ∈ t := by
  simp [← contains_iff, contains, union]

@[simp]
theorem mem_insert {s : SymbolSet} {x y : Nat} : x ∈ s.insert y ↔ x ∈ s ∨ x = y := by
  simp [insert]

@[simp]
theorem mem_erase {s : SymbolSet} {x y : Nat} : x ∈ s.erase y ↔ x ∈ s ∧ x ≠ y := by
  unfold erase
  split
  · rename_i inside
    rw [← contains_iff, ← contains_iff]
    simp only [contains, singleton, Nat.testBit_xor, Nat.one_shiftLeft, Nat.testBit_two_pow] at inside ⊢
    by_cases same : y = x
    · subst same
      simp [inside]
    · simp [same, Ne.symm same]
  · rename_i outside
    constructor
    · intro member
      exact ⟨member, fun same => outside (same ▸ member)⟩
    · exact fun member => member.1

/-- Sets with the same members are equal. -/
theorem ext {s t : SymbolSet} (same : ∀ x, x ∈ s ↔ x ∈ t) : s = t := by
  cases s with
  | mk a =>
    cases t with
    | mk b =>
      congr 1
      refine Nat.eq_of_testBit_eq fun x => ?_
      have agree := same x
      rw [← contains_iff, ← contains_iff] at agree
      exact Bool.eq_iff_iff.mpr agree

/-- A set is empty when nothing is in it. -/
theorem isEmpty_iff {s : SymbolSet} : s.isEmpty = true ↔ ∀ x, ¬ x ∈ s := by
  constructor
  · intro isEmpty x member
    have zero : s = empty := by
      cases s
      simpa [SymbolSet.isEmpty, empty] using isEmpty
    exact not_mem_empty x (zero ▸ member)
  · intro none
    have zero : s = empty := ext fun x => by simp [none x]
    rw [zero]
    rfl

theorem isEmpty_eq_false_iff {s : SymbolSet} : s.isEmpty = false ↔ ∃ x, x ∈ s := by
  rw [← Bool.not_eq_true, isEmpty_iff]
  push Not
  rfl

end SymbolSet

/-! ### Rows of sets -/

/-- The set at a place of a row; beyond the row all sets are empty. -/
abbrev setAt (sets : Array SymbolSet) (i : Nat) : SymbolSet := sets.getD i .empty

/-- A row of `count` sets of symbols below `bound`. -/
structure Bounded (count bound : Nat) (sets : Array SymbolSet) : Prop where
  size_eq : sets.size = count
  lt_of_mem : ∀ i x, x ∈ setAt sets i → x < bound

theorem setAt_eq_empty {sets : Array SymbolSet} {i : Nat} (beyond : sets.size ≤ i) :
    setAt sets i = .empty := by
  simp [setAt, Array.getD, Nat.not_lt.mpr beyond]

theorem lt_size_of_mem {sets : Array SymbolSet} {i x : Nat} (member : x ∈ setAt sets i) :
    i < sets.size := by
  by_contra beyond
  rw [setAt_eq_empty (Nat.le_of_not_lt beyond)] at member
  exact SymbolSet.not_mem_empty x member

theorem setAt_replicate (count i : Nat) : setAt (Array.replicate count .empty) i = .empty := by
  simp only [setAt, Array.getD, Array.size_replicate, Array.getInternal_eq_getElem,
    Array.getElem_replicate]
  split <;> rfl

/-- Changing the set at a place leaves the others. -/
theorem setAt_modify (sets : Array SymbolSet) (j : Nat) (change : SymbolSet → SymbolSet) (i : Nat) :
    setAt (sets.modify j change) i =
      if i = j ∧ j < sets.size then change (setAt sets i) else setAt sets i := by
  by_cases inside : i < sets.size
  · by_cases same : j = i
    · subst same
      simp [setAt, Array.getD, inside, Array.getElem_modify]
    · simp [setAt, Array.getD, inside, Array.getElem_modify, same, Ne.symm same]
  · have beyond : ¬ (i = j ∧ j < sets.size) := by omega
    rw [if_neg beyond, setAt_eq_empty (by simpa using inside), setAt_eq_empty (by simpa using inside)]

/-- Adding members to the set at a place. -/
theorem mem_setAt_modify_union {sets : Array SymbolSet} {j i x : Nat} {more : SymbolSet} :
    x ∈ setAt (sets.modify j (·.union more)) i ↔
      x ∈ setAt sets i ∨ (i = j ∧ j < sets.size ∧ x ∈ more) := by
  rw [setAt_modify]
  split
  · rename_i here
    simp [here.1, here.2]
  · rename_i elsewhere
    constructor
    · exact Or.inl
    · rintro (member | ⟨same, inside, _⟩)
      · exact member
      · exact absurd ⟨same, inside⟩ elsewhere

theorem mem_setAt_push {sets : Array SymbolSet} {last : SymbolSet} {i x : Nat} :
    x ∈ setAt (sets.push last) i ↔ x ∈ setAt sets i ∨ (i = sets.size ∧ x ∈ last) := by
  by_cases inside : i < sets.size
  · have different : i ≠ sets.size := by omega
    simp [setAt, Array.getD, inside, Nat.lt_succ_of_lt inside, Array.getElem_push_lt, different]
  · have before : setAt sets i = .empty := setAt_eq_empty (by omega)
    rw [before]
    by_cases here : i = sets.size
    · subst here
      simp [setAt, Array.getD]
    · rw [setAt_eq_empty (by simp; omega)]
      simp [here]

/-- Rows of one size with the same members are equal. -/
theorem sets_ext {first second : Array SymbolSet} (size_eq : first.size = second.size)
    (same : ∀ i x, x ∈ setAt first i ↔ x ∈ setAt second i) : first = second := by
  refine Array.ext size_eq fun i inFirst inSecond => SymbolSet.ext fun x => ?_
  simpa [setAt, Array.getD, inFirst, inSecond] using same i x

/-! ### Growing rows -/

/-- A row that has come from another one by adding members. -/
structure Grows (first second : Array SymbolSet) : Prop where
  size_eq : second.size = first.size
  mem : ∀ i x, x ∈ setAt first i → x ∈ setAt second i

namespace Grows

theorem refl (sets : Array SymbolSet) : Grows sets sets := ⟨rfl, fun _ _ member => member⟩

theorem trans {first second third : Array SymbolSet} (one : Grows first second)
    (other : Grows second third) : Grows first third :=
  ⟨other.size_eq.trans one.size_eq, fun i x member => other.mem i x (one.mem i x member)⟩

theorem antisymm {first second : Array SymbolSet} (one : Grows first second)
    (other : Grows second first) : first = second :=
  sets_ext other.size_eq fun i x => ⟨one.mem i x, other.mem i x⟩

theorem modify_union (sets : Array SymbolSet) (i : Nat) (more : SymbolSet) :
    Grows sets (sets.modify i (·.union more)) :=
  ⟨Array.size_modify, fun _ _ member => mem_setAt_modify_union.mpr (Or.inl member)⟩

end Grows

section Rounds

variable {α γ : Type} (view : α → Array SymbolSet) {update : α → γ → α}

/-- A round of updates that only add members only adds members. -/
theorem grows_foldl (grows : ∀ a c, Grows (view a) (view (update a c))) (items : List γ) (a : α) :
    Grows (view a) (view (items.foldl update a)) := by
  induction items generalizing a with
  | nil => exact Grows.refl _
  | cons item items ih => exact (grows a item).trans (ih (update a item))

/-- Where a round of updates changes nothing, none of them does. -/
theorem update_eq_of_foldl_eq (faithful : Function.Injective view)
    (grows : ∀ a c, Grows (view a) (view (update a c))) {items : List γ} {a : α}
    (fixed : items.foldl update a = a) : ∀ c ∈ items, update a c = a := by
  induction items with
  | nil => exact fun _ member => absurd member List.not_mem_nil
  | cons item items ih =>
    have back : Grows (view (update a item)) (view a) := by
      have rest := grows_foldl view grows items (update a item)
      rw [List.foldl_cons] at fixed
      rwa [fixed] at rest
    have here : update a item = a := faithful (back.antisymm (grows a item))
    rw [List.foldl_cons, here] at fixed
    intro c member
    rcases List.mem_cons.mp member with rfl | member
    · exact here
    · exact ih fixed c member

/-- What every update keeps, a round of updates keeps. -/
theorem foldl_induction {P : α → Prop} {items : List γ} (keeps : ∀ a, ∀ c ∈ items, P a → P (update a c))
    {a : α} (start : P a) : P (items.foldl update a) := by
  induction items generalizing a with
  | nil => exact start
  | cons item items ih =>
    refine ih (fun a c member => keeps a c (List.mem_cons_of_mem _ member)) ?_
    exact keeps a item List.mem_cons_self start

end Rounds

/-! ### Saturation -/

section Saturation

variable {α : Type} [DecidableEq α] {step : α → α}

/-- What holds at the start and is kept by a step holds of the result. -/
theorem saturate_induction {P : α → Prop} (keeps : ∀ a, P a → P (step a)) :
    ∀ (fuel : Nat) {a : α}, P a → P (saturate step fuel a) := by
  intro fuel
  induction fuel with
  | zero => exact fun start => start
  | succ fuel ih =>
    intro a start
    rw [saturate]
    split
    · exact start
    · exact ih (keeps a start)

/-- The filled places of a row. -/
def places (count bound : Nat) (sets : Array SymbolSet) : Finset (Nat × Nat) :=
  (Finset.range count ×ˢ Finset.range bound).filter fun place => place.2 ∈ setAt sets place.1

theorem card_places_le (count bound : Nat) (sets : Array SymbolSet) :
    (places count bound sets).card ≤ count * bound := by
  refine (Finset.card_filter_le _ _).trans ?_
  rw [Finset.card_product, Finset.card_range, Finset.card_range]

theorem mem_places {count bound : Nat} {sets : Array SymbolSet} (within : Bounded count bound sets)
    {i x : Nat} : (i, x) ∈ places count bound sets ↔ x ∈ setAt sets i := by
  simp only [places, Finset.mem_filter, Finset.mem_product, Finset.mem_range]
  constructor
  · exact fun member => member.2
  · intro member
    have inside := lt_size_of_mem member
    rw [within.size_eq] at inside
    exact ⟨⟨inside, within.lt_of_mem i x member⟩, member⟩

/-- **Saturation ends at a fixed point.** A step that loses no member fills a new place each time it
changes something, and there are `count * bound` places. -/
theorem saturate_fixed (view : α → Array SymbolSet) (count bound : Nat)
    (faithful : Function.Injective view)
    (keeps : ∀ a, Bounded count bound (view a) → Bounded count bound (view (step a)))
    (grows : ∀ a, Grows (view a) (view (step a))) {fuel : Nat} {a : α}
    (start : Bounded count bound (view a)) (enough : count * bound < fuel) :
    step (saturate step fuel a) = saturate step fuel a := by
  suffices general : ∀ (fuel : Nat) (a : α), Bounded count bound (view a) →
      count * bound < fuel + (places count bound (view a)).card →
        step (saturate step fuel a) = saturate step fuel a from
    general fuel a start (Nat.lt_add_right _ enough)
  intro fuel
  induction fuel with
  | zero =>
    intro a _ enough
    have := card_places_le count bound (view a)
    omega
  | succ fuel ih =>
    intro a start enough
    rw [saturate]
    split
    · rename_i fixed
      exact fixed
    · rename_i changed
      have next := keeps a start
      have more : places count bound (view a) ⊂ places count bound (view (step a)) := by
        refine Finset.ssubset_iff_subset_ne.mpr ⟨fun ⟨i, x⟩ member => ?_, fun same => changed ?_⟩
        · rw [mem_places start] at member
          exact (mem_places next).mpr ((grows a).mem i x member)
        · refine faithful (sets_ext (next.size_eq.trans start.size_eq.symm) fun i x => ?_)
          rw [← mem_places start, ← mem_places next, same]
      have := Finset.card_lt_card more
      exact ih (step a) next (by omega)

end Saturation

/-! ### Loops without fuel -/

section Loops

variable {α : Type} {next? : α → Option α}

/-- A loop that goes on while there is a next state comes from a state to one in which it ends. -/
inductive LoopEnds (next? : α → Option α) : α → α → Prop
  | ended {a : α} : next? a = none → LoopEnds next? a a
  | next {a b c : α} : next? a = some b → LoopEnds next? b c → LoopEnds next? a c

theorem LoopEnds.next?_eq_none {a b : α} (ends : LoopEnds next? a b) : next? b = none := by
  induction ends with
  | ended none => exact none
  | next _ _ ih => exact ih

/-- **A loop ends** if each round leaves less of something, as long as what it keeps holds. -/
theorem exists_loopEnds {Kept : α → Prop} (left : α → Nat)
    (round : ∀ a b, Kept a → next? a = some b → Kept b ∧ left b < left a) {a : α} (start : Kept a) :
    ∃ b, LoopEnds next? a b ∧ Kept b := by
  induction size : left a using Nat.strong_induction_on generalizing a with
  | _ size' ih =>
    cases step : next? a with
    | none => exact ⟨a, .ended step, start⟩
    | some b =>
      obtain ⟨kept, less⟩ := round a b start step
      obtain ⟨c, ends, keptAtEnd⟩ := ih (left b) (size ▸ less) kept rfl
      exact ⟨c, .next step ends, keptAtEnd⟩

/-- The next state of a loop that repeats a step until it changes nothing. -/
def changed? [DecidableEq α] (step : α → α) (a : α) : Option α :=
  if step a = a then none else some (step a)

/-- **Saturation ends** as soon as its step changes nothing. -/
theorem loopEnds_saturate [DecidableEq α] {step : α → α} {fuel : Nat} {a : α}
    (fixed : step (saturate step fuel a) = saturate step fuel a) :
    LoopEnds (changed? step) a (saturate step fuel a) := by
  induction fuel generalizing a with
  | zero => exact .ended (if_pos fixed)
  | succ fuel ih =>
    rw [saturate] at fixed ⊢
    by_cases same : step a = a
    · rw [if_pos same]
      exact .ended (if_pos same)
    · rw [if_neg same] at fixed ⊢
      exact .next (if_neg same) (ih fixed)

end Loops

end XPathAnnotator.Grammar
