/-
**Sorting with a balanced tree.**

Rotations do not change the values of a tree from left to right, so an insertion puts the new value at its
place and nothing else. On values whose order a key tells, a tree made by insertions lists them with rising
keys, each once.

* `toList_balance` — balancing keeps the row of values;
* `Fits`, `exists_split_of_add?` — values that an order finds a place for, and the place;
* `pairwise_ofList`, `mem_ofList` — what is listed at the end;
* `least?_eq` — the first value is the first one listed.
-/

import Mathlib
import XPathAnnotator.NodeSet.Balanced

namespace XPathAnnotator

namespace Balanced

variable {α β : Type}

/-! ### Rotations -/

@[simp]
theorem toList_join (left : Balanced α) (value : α) (right : Balanced α) :
    (join left value right).toList = left.toList ++ value :: right.toList := rfl

@[simp]
theorem toList_rotateRight (left : Balanced α) (value : α) (right : Balanced α) :
    (rotateRight left value right).toList = left.toList ++ value :: right.toList := by
  cases left with
  | empty => rfl
  | node outer above inner depth => simp only [rotateRight, toList_join, toList, List.append_assoc, List.cons_append]

@[simp]
theorem toList_rotateLeft (left : Balanced α) (value : α) (right : Balanced α) :
    (rotateLeft left value right).toList = left.toList ++ value :: right.toList := by
  cases right with
  | empty => rfl
  | node inner above outer depth => simp only [rotateLeft, toList_join, toList, List.append_assoc, List.cons_append]

@[simp]
theorem toList_leanLeft (tree : Balanced α) : tree.leanLeft.toList = tree.toList := by
  cases tree with
  | empty => rfl
  | node left value right depth =>
    rw [leanLeft]
    split
    · exact toList_rotateLeft left value right
    · rfl

@[simp]
theorem toList_leanRight (tree : Balanced α) : tree.leanRight.toList = tree.toList := by
  cases tree with
  | empty => rfl
  | node left value right depth =>
    rw [leanRight]
    split
    · exact toList_rotateRight left value right
    · rfl

/-- **Balancing keeps the row of values.** -/
@[simp]
theorem toList_balance (left : Balanced α) (value : α) (right : Balanced α) :
    (balance left value right).toList = left.toList ++ value :: right.toList := by
  unfold balance
  split
  · rw [toList_rotateRight, toList_leanLeft]
  · split
    · rw [toList_rotateLeft, toList_leanRight]
    · exact toList_join left value right

/-! ### Insertion -/

/-- **An insertion into a node** goes to the side on which the new value belongs, and balances what it makes. -/
theorem add?_node_eq_some_iff {order : α → α → Ordering} {new value : α} {left right grown : Balanced α} {depth : Nat} :
    (node left value right depth).add? order new = some grown ↔
      (order new value = .lt ∧ ∃ side, left.add? order new = some side ∧ balance side value right = grown) ∨
        (order new value = .gt ∧ ∃ side, right.add? order new = some side ∧ balance left value side = grown) := by
  rw [add?]
  cases order new value <;> simp

/-- A node refuses an equal value, and what the side refuses on which it belongs. -/
theorem add?_node_eq_none_iff {order : α → α → Ordering} {new value : α} {left right : Balanced α} {depth : Nat} :
    (node left value right depth).add? order new = none ↔
      order new value = .eq ∨ (order new value = .lt ∧ left.add? order new = none) ∨
        (order new value = .gt ∧ right.add? order new = none) := by
  rw [add?]
  cases order new value <;> simp

/-- A value that is not inserted is there already, if the order tells it from the other values. -/
theorem mem_of_add?_eq_none {order : α → α → Ordering} {new : α} {tree : Balanced α}
    (apart : ∀ x ∈ tree.toList, order new x = .eq → new = x) (refused : tree.add? order new = none) :
    new ∈ tree.toList := by
  induction tree with
  | empty => exact absurd refused (Option.some_ne_none _)
  | node left value right depth ihLeft ihRight =>
    rw [toList, List.forall_mem_append, List.forall_mem_cons] at apart
    obtain ⟨apartLeft, apartValue, apartRight⟩ := apart
    rw [toList, List.mem_append, List.mem_cons]
    rcases add?_node_eq_none_iff.mp refused with equal | ⟨-, refused⟩ | ⟨-, refused⟩
    · exact .inr (.inl (apartValue equal))
    · exact .inl (ihLeft apartLeft refused)
    · exact .inr (.inr (ihRight apartRight refused))

/-- A new value that an order compares with the values of a row as a relation tells, which also tells where values
beyond those are. -/
structure Fits (order : α → α → Ordering) (R : α → α → Prop) (row : List α) (new : α) : Prop where
  lt : ∀ x ∈ row, order new x = .lt → R new x
  gt : ∀ x ∈ row, order new x = .gt → R x new
  above : ∀ x ∈ row, ∀ y ∈ row, R new x → R x y → R new y
  below : ∀ x ∈ row, ∀ y ∈ row, R x y → R y new → R x new

theorem Fits.mono {order : α → α → Ordering} {R : α → α → Prop} {row rest : List α} {new : α}
    (fits : Fits order R row new) (inside : rest ⊆ row) : Fits order R rest new :=
  ⟨fun x met => fits.lt x (inside met), fun x met => fits.gt x (inside met),
    fun x metX y metY => fits.above x (inside metX) y (inside metY),
    fun x metX y metY => fits.below x (inside metX) y (inside metY)⟩

/-- **An inserted value** comes between those below it and those above it. -/
theorem exists_split_of_add? {order : α → α → Ordering} {R : α → α → Prop} {new : α} {tree grown : Balanced α}
    (fits : Fits order R tree.toList new) (sorted : tree.toList.Pairwise R)
    (added : tree.add? order new = some grown) :
    ∃ front back, tree.toList = front ++ back ∧ grown.toList = front ++ new :: back ∧
      (∀ x ∈ front, R x new) ∧ ∀ x ∈ back, R new x := by
  induction tree generalizing grown with
  | empty =>
    obtain rfl := Option.some.inj added
    exact ⟨[], [], rfl, rfl, fun _ met => absurd met List.not_mem_nil, fun _ met => absurd met List.not_mem_nil⟩
  | node left value right depth ihLeft ihRight =>
    have fitsLeft : Fits order R left.toList new := fits.mono (List.subset_append_left _ _)
    have fitsRight : Fits order R right.toList new :=
      fits.mono fun x met => List.mem_append_right _ (List.mem_cons_of_mem _ met)
    have here : value ∈ (node left value right depth).toList := List.mem_append_right _ List.mem_cons_self
    obtain ⟨sortedLeft, sortedRest, between⟩ := List.pairwise_append.mp sorted
    obtain ⟨aboveValue, sortedRight⟩ := List.pairwise_cons.mp sortedRest
    rcases add?_node_eq_some_iff.mp added with ⟨result, side, addedSide, rfl⟩ | ⟨result, side, addedSide, rfl⟩
    · obtain ⟨front, back, same, grows, below, above⟩ := ihLeft fitsLeft sortedLeft addedSide
      have less : R new value := fits.lt value here result
      refine ⟨front, back ++ value :: right.toList, ?_, ?_, below, fun x met => ?_⟩
      · rw [toList, same, List.append_assoc]
      · rw [toList_balance, grows, List.append_assoc, List.cons_append]
      · rcases List.mem_append.mp met with met | met
        · exact above x met
        rcases List.mem_cons.mp met with rfl | met
        · exact less
        · have there : x ∈ (node left value right depth).toList :=
            List.mem_append_right _ (List.mem_cons_of_mem _ met)
          exact fits.above value here x there less (aboveValue x met)
    · obtain ⟨front, back, same, grows, below, above⟩ := ihRight fitsRight sortedRight addedSide
      have greater : R value new := fits.gt value here result
      refine ⟨left.toList ++ value :: front, back, ?_, ?_, fun x met => ?_, above⟩
      · rw [toList, same, List.append_assoc, List.cons_append]
      · rw [toList_balance, grows, List.append_assoc, List.cons_append]
      · rcases List.mem_append.mp met with met | met
        · have there : x ∈ (node left value right depth).toList := List.mem_append_left _ met
          exact fits.below x there value here (between x met value List.mem_cons_self) greater
        rcases List.mem_cons.mp met with rfl | met
        · exact greater
        · exact below x met

/-- A row that an inserted value fits stays sorted. -/
theorem pairwise_of_add? {order : α → α → Ordering} {R : α → α → Prop} {new : α} {tree grown : Balanced α}
    (fits : Fits order R tree.toList new) (sorted : tree.toList.Pairwise R)
    (added : tree.add? order new = some grown) : grown.toList.Pairwise R := by
  obtain ⟨front, back, same, grows, below, above⟩ := exists_split_of_add? fits sorted added
  rw [same] at sorted
  obtain ⟨sortedFront, sortedBack, between⟩ := List.pairwise_append.mp sorted
  rw [grows]
  refine List.pairwise_append.mpr ⟨sortedFront, List.pairwise_cons.mpr ⟨above, sortedBack⟩, fun x metX y metY => ?_⟩
  rcases List.mem_cons.mp metY with rfl | metY
  · exact below x metX
  · exact between x metX y metY

/-- An insertion adds the new value and no other. -/
theorem mem_toList_of_add? {order : α → α → Ordering} {R : α → α → Prop} {new : α} {tree grown : Balanced α}
    (fits : Fits order R tree.toList new) (sorted : tree.toList.Pairwise R)
    (added : tree.add? order new = some grown) (x : α) : x ∈ grown.toList ↔ x = new ∨ x ∈ tree.toList := by
  obtain ⟨front, back, same, grows, -, -⟩ := exists_split_of_add? fits sorted added
  rw [grows, same, List.mem_append, List.mem_cons, List.mem_append]
  exact or_left_comm

/-! ### Keys -/

/-- An order that a key tells, on the values of a kind. -/
structure Keyed [LinearOrder β] (order : α → α → Ordering) (key : α → β) (P : α → Prop) : Prop where
  lt : ∀ a b, P a → P b → (order a b = .lt ↔ key a < key b)
  gt : ∀ a b, P a → P b → (order a b = .gt ↔ key b < key a)
  eq : ∀ a b, P a → P b → (order a b = .eq ↔ a = b)

section Keyed

variable [LinearOrder β] {order : α → α → Ordering} {key : α → β} {P : α → Prop}
  (keyed : Keyed order key P) {new : α} (fits : P new)

include keyed fits

/-- In a row of such values a key tells where a new one fits. -/
theorem Keyed.fits_row {row : List α} (all : ∀ x ∈ row, P x) : Fits order (fun a b => key a < key b) row new :=
  ⟨fun x met => (keyed.lt new x fits (all x met)).mp, fun x met => (keyed.gt new x fits (all x met)).mp,
    fun _ _ _ _ => lt_trans, fun _ _ _ _ => lt_trans⟩

/-- A value added to a sorted tree is at its place there, and no other one is added. -/
theorem add_spec {tree : Balanced α} (all : ∀ x ∈ tree.toList, P x)
    (sorted : tree.toList.Pairwise fun a b => key a < key b) :
    ((tree.add order new).toList.Pairwise fun a b => key a < key b) ∧
      ∀ x, x ∈ (tree.add order new).toList ↔ x = new ∨ x ∈ tree.toList := by
  unfold add
  cases added : tree.add? order new with
  | none =>
    have there : new ∈ tree.toList := mem_of_add?_eq_none (fun x met => (keyed.eq new x fits (all x met)).mp) added
    refine ⟨sorted, fun x => ⟨.inr, ?_⟩⟩
    rintro (rfl | met)
    · exact there
    · exact met
  | some grown =>
    have fitsIn := keyed.fits_row fits all
    rw [Option.getD_some]
    exact ⟨pairwise_of_add? fitsIn sorted added, mem_toList_of_add? fitsIn sorted added⟩

end Keyed

section OfList

variable [LinearOrder β] {order : α → α → Ordering} {key : α → β} {P : α → Prop}

theorem foldl_add_spec (keyed : Keyed order key P) {values : List α} {tree : Balanced α}
    (all : ∀ x ∈ values, P x) (allTree : ∀ x ∈ tree.toList, P x)
    (sorted : tree.toList.Pairwise fun a b => key a < key b) :
    ((values.foldl (add order) tree).toList.Pairwise fun a b => key a < key b) ∧
      ∀ x, x ∈ (values.foldl (add order) tree).toList ↔ x ∈ tree.toList ∨ x ∈ values := by
  induction values generalizing tree with
  | nil => exact ⟨sorted, fun x => by simp⟩
  | cons value values ih =>
    have fits : P value := all value List.mem_cons_self
    obtain ⟨sortedNext, next⟩ := add_spec keyed fits allTree sorted
    have allNext : ∀ x ∈ (tree.add order value).toList, P x := by
      intro x met
      rcases (next x).mp met with rfl | met
      · exact fits
      · exact allTree x met
    obtain ⟨sortedEnd, members⟩ := ih (fun x met => all x (List.mem_cons_of_mem _ met)) allNext sortedNext
    refine ⟨sortedEnd, fun x => ?_⟩
    rw [List.foldl_cons, members, next, List.mem_cons, or_assoc, or_left_comm]

variable (keyed : Keyed order key P) {values : List α} (all : ∀ x ∈ values, P x)

include keyed all

/-- **The values of a tree made by insertions have rising keys.** -/
theorem pairwise_ofList : (ofList order values).toList.Pairwise fun a b => key a < key b :=
  (foldl_add_spec keyed all (fun _ met => absurd met List.not_mem_nil) List.Pairwise.nil).1

/-- **A tree made by insertions holds what was inserted.** -/
theorem mem_ofList (x : α) : x ∈ (ofList order values).toList ↔ x ∈ values := by
  have none : ∀ x ∈ (empty : Balanced α).toList, P x := fun _ met => absurd met List.not_mem_nil
  rw [ofList, (foldl_add_spec keyed all none List.Pairwise.nil).2 x]
  exact or_iff_right List.not_mem_nil

end OfList

/-- The first value of a tree is the first one listed. -/
theorem least?_eq (tree : Balanced α) : tree.least? = tree.toList.head? := by
  induction tree with
  | empty => rfl
  | node left value right depth ih _ =>
    cases left with
    | empty => rfl
    | node outer above inner deep =>
      have same : (node (node outer above inner deep) value right depth).least? =
          (node outer above inner deep).least? := rfl
      have row : (node (node outer above inner deep) value right depth).toList =
          (node outer above inner deep).toList ++ value :: right.toList := rfl
      have some : (node outer above inner deep).toList ≠ [] := by simp [toList]
      rw [same, ih, row, List.head?_append_of_ne_nil _ some]

end Balanced

end XPathAnnotator
