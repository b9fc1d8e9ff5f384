/-
**Insertion in place.**

A tree stands at a reference if its nodes are in cells, each reached by one way from there. An insertion changes the
cells of the tree and uses one more, and the tree with the new value then stands at the same reference: a rotation moves
contents, not references. So a tree that is planted and grown by insertions stays where it was planted.

* `Stands` — a tree at a reference, and the cells that it uses;
* `Reworked` — what is left of the cells when a tree takes the place of another one;
* `reworked_balance`, `addWithin_spec` — rotations and insertions in place do what they do to trees;
* `Planted`, `planted_addAll` — a tree that grows in place is the one that insertions make;
* `add_inserts` — **an insertion after any others**.
-/

import Mathlib
import XPathAnnotator.NodeSet.Cells
import XPathAnnotator.Proofs.NodeSet.Balancing
import XPathAnnotator.Proofs.NodeSet.SeveralTrees

namespace XPathAnnotator

open XPathAnnotator.Balanced

namespace Cells

variable {α : Type} {cells cells' : Cells α} {r : Nat}

/-! ### Trees in cells -/

/-- A tree stands at a side: its nodes are in the cells of a list of references, which are met on the way. -/
inductive Stands (cells : Cells α) : Option Nat → Balanced α → List Nat → Prop
  | empty : Stands cells none .empty []
  | node {r : Nat} {cell : Cell α} {left right : Balanced α} {usedLeft usedRight : List Nat}
      (found : cells[r]? = some cell) (standsLeft : Stands cells cell.left left usedLeft)
      (standsRight : Stands cells cell.right right usedRight) :
      Stands cells (some r) (.node left cell.value right cell.depth) (r :: (usedLeft ++ usedRight))

variable {side : Option Nat} {tree left right : Balanced α} {used usedLeft usedRight : List Nat}

/-- A tree stays if its cells do. -/
theorem Stands.congr (stands : Stands cells side tree used) (same : ∀ k ∈ used, cells'[k]? = cells[k]?) :
    Stands cells' side tree used := by
  induction stands with
  | empty => exact .empty
  | node found _ _ ihLeft ihRight =>
    rw [List.forall_mem_cons, List.forall_mem_append] at same
    exact .node (same.1.trans found) (ihLeft same.2.1) (ihRight same.2.2)

theorem Stands.lt_size (stands : Stands cells side tree used) : ∀ k ∈ used, k < cells.size := by
  induction stands with
  | empty => exact fun _ met => absurd met List.not_mem_nil
  | node found _ _ ihLeft ihRight =>
    exact List.forall_mem_cons.mpr
      ⟨(Array.getElem?_eq_some_iff.mp found).1, List.forall_mem_append.mpr ⟨ihLeft, ihRight⟩⟩

theorem Stands.depthAt_eq (stands : Stands cells side tree used) : cells.depthAt side = tree.depth := by
  cases stands with
  | empty => rfl
  | node found => simp [depthAt, side?, found, Balanced.depth]

theorem Stands.length_le (stands : Stands cells side tree used) (nodup : used.Nodup) : used.length ≤ cells.size := by
  have inRange : used ⊆ List.range cells.size := fun k met => List.mem_range.mpr (stands.lt_size k met)
  simpa using nodup.length_le_of_subset inRange

/-- **The tree at a side is read** as the one that stands there. -/
theorem Stands.treeWithin_eq (stands : Stands cells side tree used) {fuel : Nat} (enough : used.length ≤ fuel) :
    cells.treeWithin fuel side = tree := by
  induction stands generalizing fuel with
  | empty => cases fuel <;> rfl
  | node found _ _ ihLeft ihRight =>
    rw [List.length_cons, List.length_append] at enough
    obtain ⟨fuel, rfl⟩ : ∃ rest, fuel = rest + 1 := ⟨fuel - 1, by omega⟩
    simp only [treeWithin, side?, Option.bind_eq_bind, Option.bind_some, found, Option.pure_def]
    rw [ihLeft (by omega), ihRight (by omega)]

theorem Stands.tree_eq (stands : Stands cells (some r) tree used) (nodup : used.Nodup) : cells.tree r = tree :=
  stands.treeWithin_eq (stands.length_le nodup)

/-! ### Single cells -/

theorem put_getElem?_ne {k : Nat} (other : k ≠ r) (left : Option Nat) (value : α) (right : Option Nat) :
    (cells.put r left value right)[k]? = cells[k]? :=
  Array.getElem?_setIfInBounds_ne (Ne.symm other)

theorem put_getElem?_self (inBounds : r < cells.size) (left : Option Nat) (value : α) (right : Option Nat) :
    (cells.put r left value right)[r]? =
      some ⟨value, left, right, max (cells.depthAt left) (cells.depthAt right) + 1⟩ :=
  Array.getElem?_setIfInBounds_self_of_lt inBounds

theorem size_put (left : Option Nat) (value : α) (right : Option Nat) :
    (cells.put r left value right).size = cells.size := Array.size_setIfInBounds

/-- **A value put between two sides** joins their trees. -/
theorem Stands.put {l m : Option Nat} (standsLeft : Stands cells l left usedLeft)
    (standsRight : Stands cells m right usedRight) (inBounds : r < cells.size) (apart : r ∉ usedLeft ++ usedRight)
    (value : α) : Stands (cells.put r l value m) (some r) (join left value right) (r :: (usedLeft ++ usedRight)) := by
  rw [List.mem_append, not_or] at apart
  have stays {k : Nat} {row : List Nat} (notThere : r ∉ row) (met : k ∈ row) :
      (cells.put r l value m)[k]? = cells[k]? := by
    refine put_getElem?_ne ?_ l value m
    rintro rfl
    exact notThere met
  have found := put_getElem?_self inBounds l value m
  rw [standsLeft.depthAt_eq, standsRight.depthAt_eq] at found
  exact .node found (standsLeft.congr fun k => stays apart.1) (standsRight.congr fun k => stays apart.2)

/-! ### Changes in place -/

/-- Cells that have been changed at some references only, where a tree now stands that uses these. -/
structure Reworked (cells cells' : Cells α) (r : Nat) (tree : Balanced α) (used : List Nat) : Prop where
  stands : ∃ row, row.Perm used ∧ Stands cells' (some r) tree row
  outside : ∀ k, k ∉ used → cells'[k]? = cells[k]?

/-- One change after another. -/
theorem Reworked.trans {middle : Cells α} {after : Balanced α} (first : Reworked cells middle r tree used)
    (second : ∀ row, row.Perm used → Stands middle (some r) tree row → Reworked middle cells' r after row) :
    Reworked cells cells' r after used := by
  obtain ⟨row, perm, stands⟩ := first.stands
  obtain ⟨⟨last, perm', stands'⟩, outside⟩ := second row perm stands
  exact ⟨⟨last, perm'.trans perm, stands'⟩, fun k notUsed =>
    (outside k fun met => notUsed (perm.subset met)).trans (first.outside k notUsed)⟩

theorem Reworked.perm {row : List Nat} (reworked : Reworked cells cells' r tree used) (perm : used.Perm row) :
    Reworked cells cells' r tree row := by
  obtain ⟨⟨last, before, stands⟩, outside⟩ := reworked
  exact ⟨⟨last, before.trans perm, stands⟩, fun k notUsed => outside k fun met => notUsed (perm.subset met)⟩

theorem Stands.reworked (stands : Stands cells (some r) tree used) : Reworked cells cells r tree used :=
  ⟨⟨used, List.Perm.refl used, stands⟩, fun _ _ => rfl⟩

section Node

variable {value : α} {depth k : Nat} {l m : Option Nat} {after : Balanced α}

/-- What stands at a side as a node is in a cell with two sides. -/
theorem Stands.exists_cell (stands : Stands cells side (.node left value right depth) used) :
    ∃ r l m usedLeft usedRight, side = some r ∧ cells[r]? = some ⟨value, l, m, depth⟩ ∧
      Stands cells l left usedLeft ∧ Stands cells m right usedRight ∧ used = r :: (usedLeft ++ usedRight) := by
  cases stands with
  | @node r cell _ _ usedLeft usedRight found standsLeft standsRight =>
    exact ⟨r, cell.left, cell.right, usedLeft, usedRight, rfl, found, standsLeft, standsRight, rfl⟩

/-- A change of the left side changes the tree above it. -/
theorem Reworked.ofLeft (found : cells[r]? = some ⟨value, some k, m, depth⟩)
    (standsRight : Stands cells m right usedRight) (nodup : (r :: (usedLeft ++ usedRight)).Nodup)
    (changed : Reworked cells cells' k after usedLeft) :
    Reworked cells cells' r (.node after value right depth) (r :: (usedLeft ++ usedRight)) := by
  obtain ⟨⟨row, perm, stands⟩, outside⟩ := changed
  obtain ⟨apart, nodupBoth⟩ := List.nodup_cons.mp nodup
  have disjoint := List.disjoint_of_nodup_append nodupBoth
  rw [List.mem_append, not_or] at apart
  refine ⟨⟨r :: (row ++ usedRight), (perm.append_right _).cons r, ?_⟩, fun j notUsed => outside j ?_⟩
  · exact .node ((outside r apart.1).trans found) stands
      (standsRight.congr fun j met => outside j fun there => disjoint there met)
  · exact fun met => notUsed (List.mem_cons_of_mem _ (List.mem_append_left _ met))

/-- A change of the right side changes the tree above it. -/
theorem Reworked.ofRight (found : cells[r]? = some ⟨value, l, some k, depth⟩)
    (standsLeft : Stands cells l left usedLeft) (nodup : (r :: (usedLeft ++ usedRight)).Nodup)
    (changed : Reworked cells cells' k after usedRight) :
    Reworked cells cells' r (.node left value after depth) (r :: (usedLeft ++ usedRight)) := by
  obtain ⟨⟨row, perm, stands⟩, outside⟩ := changed
  obtain ⟨apart, nodupBoth⟩ := List.nodup_cons.mp nodup
  have disjoint := List.disjoint_of_nodup_append nodupBoth
  rw [List.mem_append, not_or] at apart
  refine ⟨⟨r :: (usedLeft ++ row), (perm.append_left _).cons r, ?_⟩, fun j notUsed => outside j ?_⟩
  · exact .node ((outside r apart.2).trans found)
      (standsLeft.congr fun j met => outside j fun there => disjoint met there) stands
  · exact fun met => notUsed (List.mem_cons_of_mem _ (List.mem_append_right _ met))

end Node

/-! ### Rotations -/

section Rotations

variable {outer inner : Balanced α} {value above : α} {depth known : Nat}

/-- The root of the left side moves into the upper cell, that of the tree into the lower one. -/
theorem reworked_rotateRight
    (stands : Stands cells (some r) (.node (.node outer above inner known) value right depth) used) (nodup : used.Nodup) :
    Reworked cells (cells.rotateRight r) r (Balanced.rotateRight (.node outer above inner known) value right) used := by
  obtain ⟨_, side, m, _, usedRight, same, found, standsLeft, standsRight, rfl⟩ := stands.exists_cell
  obtain rfl := Option.some.inj same
  obtain ⟨k, l, inside, usedOuter, usedInner, rfl, foundLeft, standsOuter, standsInner, rfl⟩ := standsLeft.exists_cell
  have lower := standsInner.put standsRight (Array.getElem?_eq_some_iff.mp foundLeft).1 (by grind) value
  have keptOuter : Stands (cells.put k inside value m) l outer usedOuter :=
    standsOuter.congr fun j met => put_getElem?_ne (by grind) _ _ _
  have inBounds : r < (cells.put k inside value m).size := by
    rw [size_put]
    exact (Array.getElem?_eq_some_iff.mp found).1
  have upper := keptOuter.put lower inBounds (by grind) above
  have rotated : cells.rotateRight r = (cells.put k inside value m).put r l above (some k) := by
    simp [rotateRight, side?, found, foundLeft]
  rw [rotated]
  refine ⟨⟨_, ?_, upper⟩, fun j notUsed => ?_⟩
  · simp [List.perm_middle]
  · rw [put_getElem?_ne (by grind), put_getElem?_ne (by grind)]

/-- The root of the right side moves into the upper cell, that of the tree into the lower one. -/
theorem reworked_rotateLeft
    (stands : Stands cells (some r) (.node left value (.node inner above outer known) depth) used) (nodup : used.Nodup) :
    Reworked cells (cells.rotateLeft r) r (Balanced.rotateLeft left value (.node inner above outer known)) used := by
  obtain ⟨_, l, side, usedLeft, _, same, found, standsLeft, standsRight, rfl⟩ := stands.exists_cell
  obtain rfl := Option.some.inj same
  obtain ⟨k, inside, m, usedInner, usedOuter, rfl, foundRight, standsInner, standsOuter, rfl⟩ := standsRight.exists_cell
  have lower := standsLeft.put standsInner (Array.getElem?_eq_some_iff.mp foundRight).1 (by grind) value
  have keptOuter : Stands (cells.put k l value inside) m outer usedOuter :=
    standsOuter.congr fun j met => put_getElem?_ne (by grind) _ _ _
  have inBounds : r < (cells.put k l value inside).size := by
    rw [size_put]
    exact (Array.getElem?_eq_some_iff.mp found).1
  have upper := lower.put keptOuter inBounds (by grind) above
  have rotated : cells.rotateLeft r = (cells.put k l value inside).put r (some k) above m := by
    simp [rotateLeft, side?, found, foundRight]
  rw [rotated]
  refine ⟨⟨_, ?_, upper⟩, fun j notUsed => ?_⟩
  · simp [List.perm_middle.symm]
  · rw [put_getElem?_ne (by grind), put_getElem?_ne (by grind)]

theorem reworked_updateDepth (stands : Stands cells (some r) (.node left value right depth) used) (nodup : used.Nodup) :
    Reworked cells (cells.updateDepth r) r (join left value right) used := by
  obtain ⟨_, l, m, usedLeft, usedRight, same, found, standsLeft, standsRight, rfl⟩ := stands.exists_cell
  obtain rfl := Option.some.inj same
  have updated : cells.updateDepth r = cells.put r l value m := by simp [updateDepth, found]
  rw [updated]
  exact ⟨⟨_, List.Perm.refl _, standsLeft.put standsRight (Array.getElem?_eq_some_iff.mp found).1
    (List.nodup_cons.mp nodup).1 value⟩, fun j notUsed => put_getElem?_ne (by grind) _ _ _⟩

theorem reworked_leanLeft (stands : Stands cells (some r) tree used) (nodup : used.Nodup) :
    Reworked cells (cells.leanLeft (some r)) r tree.leanLeft used := by
  cases tree with
  | empty => cases stands
  | node outer above inner known =>
    obtain ⟨_, l, m, _, _, same, found, standsOuter, standsInner, rfl⟩ := stands.exists_cell
    obtain rfl := Option.some.inj same
    simp only [leanLeft, side?, Option.bind_eq_bind, Option.bind_some, found, Option.pure_def, standsOuter.depthAt_eq,
      standsInner.depthAt_eq, Balanced.leanLeft]
    split
    next lean =>
      cases inner with
      | empty => exact absurd lean (Nat.not_lt_zero _)
      | node => exact reworked_rotateLeft stands nodup
    next => exact stands.reworked

theorem reworked_leanRight (stands : Stands cells (some r) tree used) (nodup : used.Nodup) :
    Reworked cells (cells.leanRight (some r)) r tree.leanRight used := by
  cases tree with
  | empty => cases stands
  | node inner above outer known =>
    obtain ⟨_, l, m, _, _, same, found, standsInner, standsOuter, rfl⟩ := stands.exists_cell
    obtain rfl := Option.some.inj same
    simp only [leanRight, side?, Option.bind_eq_bind, Option.bind_some, found, Option.pure_def, standsOuter.depthAt_eq,
      standsInner.depthAt_eq, Balanced.leanRight]
    split
    next lean =>
      cases inner with
      | empty => exact absurd lean (Nat.not_lt_zero _)
      | node => exact reworked_rotateRight stands nodup
    next => exact stands.reworked

/-- **Balancing in place** does to the cells what balancing does to their trees. -/
theorem reworked_balance (stands : Stands cells (some r) (.node left value right depth) used) (nodup : used.Nodup) :
    Reworked cells ((cells.balance r).updateDepth r) r (Balanced.balance left value right) used := by
  obtain ⟨_, l, m, usedLeft, usedRight, same, found, standsLeft, standsRight, rfl⟩ := stands.exists_cell
  obtain rfl := Option.some.inj same
  obtain ⟨-, nodupBoth⟩ := List.nodup_cons.mp nodup
  obtain ⟨nodupLeft, nodupRight, -⟩ := List.nodup_append.mp nodupBoth
  simp only [balance, found, standsLeft.depthAt_eq, standsRight.depthAt_eq, Balanced.balance]
  split
  next deep =>
    cases standsLeft with
    | empty => exact absurd deep (Nat.not_lt_zero _)
    | @node k cell outer inner usedOuter usedInner foundLeft standsOuter standsInner =>
      have leaned := reworked_leanLeft (.node foundLeft standsOuter standsInner) nodupLeft
      refine ((leaned.ofLeft found standsRight nodup).trans fun row perm stands => ?_)
      have nodupRow := perm.nodup_iff.mpr nodup
      obtain ⟨first, top, second, known, lean⟩ := exists_leanLeft outer cell.value inner cell.depth
      rw [lean] at stands ⊢
      exact (reworked_rotateRight stands nodupRow).trans fun row perm stands =>
        reworked_updateDepth stands (perm.nodup_iff.mpr nodupRow)
  next =>
    split
    next deep =>
      cases standsRight with
      | empty => exact absurd deep (Nat.not_lt_zero _)
      | @node k cell inner outer usedInner usedOuter foundRight standsInner standsOuter =>
        have leaned := reworked_leanRight (.node foundRight standsInner standsOuter) nodupRight
        refine ((leaned.ofRight found standsLeft nodup).trans fun row perm stands => ?_)
        have nodupRow := perm.nodup_iff.mpr nodup
        obtain ⟨first, top, second, known, lean⟩ := exists_leanRight inner cell.value outer cell.depth
        rw [lean] at stands ⊢
        exact (reworked_rotateLeft stands nodupRow).trans fun row perm stands =>
          reworked_updateDepth stands (perm.nodup_iff.mpr nodupRow)
    next => exact reworked_updateDepth stands nodup

end Rotations

/-! ### Insertion -/

section Insertion

variable {order : α → α → Ordering} {new : α} {value : α} {depth : Nat} {l m : Option Nat}

theorem getElem?_push_ne {k : Nat} (other : k ≠ cells.size) (cell : Cell α) : (cells.push cell)[k]? = cells[k]? := by
  rw [Array.getElem?_push, if_neg other]

/-- A new value in a cell of its own. -/
theorem stands_push (cells : Cells α) (value : α) :
    Stands (cells.push (single value)) (some cells.size) (Balanced.single value) [cells.size] := by
  have found : (cells.push (single value))[cells.size]? = some (single value) := Array.getElem?_push_size
  exact .node found .empty .empty

theorem Stands.push (stands : Stands cells side tree used) (cell : Cell α) : Stands (cells.push cell) side tree used :=
  stands.congr fun k met => getElem?_push_ne (Nat.ne_of_lt (stands.lt_size k met)) cell

/-- A new value on the left of a node that has no left side. -/
theorem reworked_put_left (found : cells[r]? = some ⟨value, none, m, depth⟩)
    (standsRight : Stands cells m right usedRight) (shallow : right.depth ≤ 1) (nodupAll : (cells.size :: r :: usedRight).Nodup) :
    Reworked cells (put (cells.push (single new)) r (some cells.size) value m) r
      (Balanced.balance (Balanced.single new) value right) (cells.size :: r :: usedRight) := by
  have inBounds : r < (cells.push (single new)).size :=
    (Array.getElem?_eq_some_iff.mp found).1.trans_le (by simp)
  have placed := (stands_push cells new).put (standsRight.push _) inBounds (by grind) value
  have one : (Balanced.single new).depth = 1 := rfl
  rw [balance_eq_join (by omega) (by omega)]
  refine ⟨⟨_, List.Perm.swap .., placed⟩, fun k notUsed => ?_⟩
  rw [put_getElem?_ne (by grind), getElem?_push_ne (by grind)]

/-- A new value on the right of a node that has no right side. -/
theorem reworked_put_right (found : cells[r]? = some ⟨value, l, none, depth⟩)
    (standsLeft : Stands cells l left usedLeft) (shallow : left.depth ≤ 1) (nodupAll : (cells.size :: r :: usedLeft).Nodup) :
    Reworked cells (put (cells.push (single new)) r l value (some cells.size)) r
      (Balanced.balance left value (Balanced.single new)) (cells.size :: r :: usedLeft) := by
  have inBounds : r < (cells.push (single new)).size :=
    (Array.getElem?_eq_some_iff.mp found).1.trans_le (by simp)
  have placed := (standsLeft.push _).put (stands_push cells new) inBounds (by grind) value
  have one : (Balanced.single new).depth = 1 := rfl
  rw [balance_eq_join (by omega) (by omega)]
  refine ⟨⟨_, ?_, placed⟩, fun k notUsed => ?_⟩
  · exact (List.perm_append_singleton cells.size (r :: usedLeft))
  · rw [put_getElem?_ne (by grind), getElem?_push_ne (by grind)]

/-- The outcome of an insertion: where the value finds its place, one more cell is used, and otherwise nothing is
changed. -/
def Inserts (cells : Cells α) (r : Nat) (used : List Nat) (grown? : Option (Balanced α)) (outcome : Bool × Cells α) :
    Prop :=
  match grown? with
  | none => outcome = (false, cells)
  | some grown => ∃ cells', outcome = (true, cells') ∧ Reworked cells cells' r grown (cells.size :: used)

/-- An insertion into the left side is one into the tree. -/
theorem Inserts.ofLeft {k : Nat} {grown? : Option (Balanced α)} {outcome : Bool × Cells α}
    (inserts : Inserts cells k usedLeft grown? outcome) (found : cells[r]? = some ⟨value, some k, m, depth⟩)
    (standsRight : Stands cells m right usedRight) (nodupAll : (cells.size :: r :: (usedLeft ++ usedRight)).Nodup) :
    Inserts cells r (r :: (usedLeft ++ usedRight)) (grown?.map fun left => Balanced.balance left value right)
      (rebalanced r outcome) := by
  cases grown? with
  | none =>
    obtain rfl : outcome = (false, cells) := inserts
    rfl
  | some grown =>
    obtain ⟨cells', rfl, reworked⟩ := inserts
    have perm : (r :: (cells.size :: usedLeft ++ usedRight)).Perm (cells.size :: r :: (usedLeft ++ usedRight)) :=
      List.Perm.swap ..
    have lifted := reworked.ofLeft found standsRight (perm.nodup_iff.mpr nodupAll)
    have balanced := lifted.trans fun row same stands =>
      reworked_balance stands ((same.trans perm).nodup_iff.mpr nodupAll)
    exact ⟨_, rfl, balanced.perm perm⟩

/-- An insertion into the right side is one into the tree. -/
theorem Inserts.ofRight {k : Nat} {grown? : Option (Balanced α)} {outcome : Bool × Cells α}
    (inserts : Inserts cells k usedRight grown? outcome) (found : cells[r]? = some ⟨value, l, some k, depth⟩)
    (standsLeft : Stands cells l left usedLeft) (nodupAll : (cells.size :: r :: (usedLeft ++ usedRight)).Nodup) :
    Inserts cells r (r :: (usedLeft ++ usedRight)) (grown?.map fun right => Balanced.balance left value right)
      (rebalanced r outcome) := by
  cases grown? with
  | none =>
    obtain rfl : outcome = (false, cells) := inserts
    rfl
  | some grown =>
    obtain ⟨cells', rfl, reworked⟩ := inserts
    have perm : (r :: (usedLeft ++ cells.size :: usedRight)).Perm (cells.size :: r :: (usedLeft ++ usedRight)) :=
      (List.perm_middle.cons r).trans (List.Perm.swap ..)
    have lifted := reworked.ofRight found standsLeft (perm.nodup_iff.mpr nodupAll)
    have balanced := lifted.trans fun row same stands =>
      reworked_balance stands ((same.trans perm).nodup_iff.mpr nodupAll)
    exact ⟨_, rfl, balanced.perm perm⟩

/-- **An insertion in place** is the insertion into the tree that stands there, if this tree is balanced. -/
theorem addWithin_spec (stands : Stands cells (some r) tree used) (nodup : used.Nodup) (isBalanced : tree.IsBalanced)
    {fuel : Nat} (enough : used.length ≤ fuel) :
    Inserts cells r used (tree.add? order new) (addWithin order new fuel cells r) := by
  induction tree generalizing r used fuel with
  | empty => cases stands
  | node left value right depth ihLeft ihRight =>
    obtain ⟨_, l, m, usedLeft, usedRight, same, found, standsLeft, standsRight, rfl⟩ := stands.exists_cell
    obtain rfl := Option.some.inj same
    obtain ⟨-, ⟨leftBound, rightBound⟩, isLeft, isRight⟩ := isBalanced
    have fresh : cells.size ∉ r :: (usedLeft ++ usedRight) := fun met => lt_irrefl _ (stands.lt_size _ met)
    have nodupAll : (cells.size :: r :: (usedLeft ++ usedRight)).Nodup := List.nodup_cons.mpr ⟨fresh, nodup⟩
    obtain ⟨-, nodupBoth⟩ := List.nodup_cons.mp nodup
    obtain ⟨nodupLeft, nodupRight, -⟩ := List.nodup_append.mp nodupBoth
    rw [List.length_cons, List.length_append] at enough
    obtain ⟨fuel, rfl⟩ : ∃ rest, fuel = rest + 1 := ⟨fuel - 1, by omega⟩
    simp only [Balanced.add?, addWithin, found]
    cases order new value with
    | eq => rfl
    | lt =>
      dsimp only
      cases standsLeft with
      | empty =>
        exact ⟨_, rfl, reworked_put_left found standsRight rightBound nodupAll⟩
      | @node k _ _ _ _ _ foundLeft standsOuter standsInner =>
        have inserts : Inserts cells k _ (add? order new _) (addWithin order new fuel cells k) :=
          ihLeft (.node foundLeft standsOuter standsInner) nodupLeft isLeft (by omega)
        exact inserts.ofLeft found standsRight nodupAll
    | gt =>
      dsimp only
      cases standsRight with
      | empty =>
        rw [List.append_nil] at nodupAll ⊢
        exact ⟨_, rfl, reworked_put_right found standsLeft leftBound nodupAll⟩
      | @node k _ _ _ _ _ foundRight standsInner standsOuter =>
        have inserts : Inserts cells k _ (add? order new _) (addWithin order new fuel cells k) :=
          ihRight (.node foundRight standsInner standsOuter) nodupRight isRight (by omega)
        exact inserts.ofRight found standsLeft nodupAll

end Insertion

/-! ### Trees that grow in place -/

section Planted

variable {order : α → α → Ordering} {others : Cells α} {values : List α} {first new : α}

/-- The tree of some insertions stands at a reference, in cells that were added to those of other trees. -/
structure Planted (order : α → α → Ordering) (others cells : Cells α) (r : Nat) (values : List α) : Prop where
  stands : ∃ used, used.Nodup ∧ Stands cells (some r) (ofList order values) used ∧ ∀ k ∈ used, others.size ≤ k
  grown : others.size ≤ cells.size
  others : ∀ k < others.size, cells[k]? = others[k]?

theorem Planted.tree_eq (planted : Planted order others cells r values) : cells.tree r = ofList order values := by
  obtain ⟨used, nodup, stands, -⟩ := planted.stands
  exact stands.tree_eq nodup

theorem planted_plant (order : α → α → Ordering) (others : Cells α) (first : α) :
    Planted order others (others.plant first).2 (others.plant first).1 [first] where
  stands := ⟨[others.size], List.nodup_singleton _, stands_push others first,
    List.forall_mem_singleton.mpr (Nat.le_refl _)⟩
  grown := by simp [plant]
  others k before := getElem?_push_ne (Nat.ne_of_lt before) _

/-- **One insertion**: it answers whether the value finds a place in the tree, and the tree grows by it where it
stands. -/
theorem Planted.add (planted : Planted order others cells r values) (new : α) :
    Planted order others (cells.add order r new).2 r (values ++ [new]) ∧
      (cells.add order r new).1 = (add? order new (ofList order values)).isSome ∧
      ((cells.add order r new).1 = false → (cells.add order r new).2 = cells) := by
  obtain ⟨used, nodup, stands, behind⟩ := planted.stands
  have inserts : Inserts cells r used (add? order new (ofList order values)) (addWithin order new cells.size cells r) :=
    addWithin_spec stands nodup isBalanced_ofList (stands.length_le nodup)
  rw [Cells.add]
  have next : ofList order (values ++ [new]) = (ofList order values).add order new := ofList_append_singleton values new
  cases added : add? order new (ofList order values) with
  | none =>
    rw [added] at inserts
    have outcome : addWithin order new cells.size cells r = (false, cells) := inserts
    have same : ofList order (values ++ [new]) = ofList order values := by
      rw [next, Balanced.add, added, Option.getD_none]
    rw [outcome]
    exact ⟨⟨⟨used, nodup, same ▸ stands, behind⟩, planted.grown, planted.others⟩, rfl, fun _ => rfl⟩
  | some grown =>
    rw [added] at inserts
    obtain ⟨cells', outcome, ⟨row, perm, standsGrown⟩, outside⟩ := inserts
    have same : ofList order (values ++ [new]) = grown := by rw [next, Balanced.add, added, Option.getD_some]
    have behindAll : ∀ k ∈ cells.size :: used, others.size ≤ k := List.forall_mem_cons.mpr ⟨planted.grown, behind⟩
    have nodupAll : (cells.size :: used).Nodup :=
      List.nodup_cons.mpr ⟨fun met => lt_irrefl _ (stands.lt_size _ met), nodup⟩
    have largest := standsGrown.lt_size cells.size (perm.symm.subset List.mem_cons_self)
    rw [outcome]
    refine ⟨⟨⟨row, perm.nodup_iff.mpr nodupAll, same ▸ standsGrown, fun k met => behindAll k (perm.subset met)⟩,
      planted.grown.trans largest.le, fun k before => ?_⟩, rfl, fun refused => absurd refused (by simp)⟩
    exact (outside k fun met => Nat.not_lt.mpr (behindAll k met) before).trans (planted.others k before)

/-- The cells after a tree of one value has been planted and grown by insertions. -/
theorem planted_addAll (order : α → α → Ordering) (others : Cells α) (first : α) (additions : List α) :
    Planted order others ((others.plant first).2.addAll order (others.plant first).1 additions) (others.plant first).1
      (first :: additions) := by
  induction additions using List.reverseRecOn with
  | nil => exact planted_plant order others first
  | append_singleton additions new ih =>
    rw [addAll, List.foldl_concat, ← List.cons_append]
    exact (ih.add new).1

/-- **An insertion after any others.** On values of which an order is strict and total, a tree is planted and grown by
insertions, and then one more value is inserted. The tree that stands at its reference afterwards lists the values in
rising order, and they are those inserted so far; each of its nodes knows the depth of its tree, and the depths of its
sides differ by at most one. The answer is whether the value is new, and if it is not then no cell has changed. The
cells of other trees are as they were. -/
theorem add_inserts {kind : α → Prop} (strict : StrictOrder order kind) {additions : List α}
    (known : ∀ x ∈ new :: first :: additions, kind x) (others : Cells α) {before after : Cells α} {added : Bool}
    (grows : (others.plant first).2.addAll order (others.plant first).1 additions = before)
    (adds : before.add order (others.plant first).1 new = (added, after)) :
    (after.tree (others.plant first).1).toList.Pairwise (fun a b => order a b = .lt) ∧
      (∀ x, x ∈ (after.tree (others.plant first).1).toList ↔ x ∈ first :: additions ∨ x = new) ∧
      (after.tree (others.plant first).1).IsBalanced ∧
      after.tree (others.plant first).1 = ofList order (first :: additions ++ [new]) ∧
      (added = true ↔ new ∉ first :: additions) ∧ (added = false → after = before) ∧
      ∀ r < others.size, after[r]? = others[r]? := by
  obtain ⟨isNew, isKnown⟩ := List.forall_mem_cons.mp known
  have planted := planted_addAll order others first additions
  rw [grows] at planted
  obtain ⟨plantedAfter, answer, unchanged⟩ := planted.add new
  rw [adds] at plantedAfter answer unchanged
  dsimp only at plantedAfter answer unchanged
  have all : ∀ x ∈ first :: additions ++ [new], kind x :=
    List.forall_mem_append.mpr ⟨isKnown, List.forall_mem_singleton.mpr isNew⟩
  obtain ⟨rising, members⟩ := rising_ofList strict isKnown
  obtain ⟨risingAfter, membersAfter⟩ := rising_ofList strict all
  rw [plantedAfter.tree_eq]
  refine ⟨risingAfter.sorted, fun x => ?_, isBalanced_ofList, rfl, ?_, unchanged, plantedAfter.others⟩
  · rw [membersAfter, List.mem_append, List.mem_singleton]
  · have refused := rising.add?_eq_none_iff strict isNew
    rw [members] at refused
    rw [answer, ← not_iff_not, Bool.not_eq_true, Option.isSome_eq_false_iff, Option.isNone_iff_eq_none, not_not]
    exact refused

end Planted

/-! ### Nodes of a note -/

/-- Document order is strict and total on the nodes of a tree, here of the first of two notes. -/
theorem strictOrder_firstNote : StrictOrder NodeSet.twoNotes.order (NodeSet.twoNotes.InTree (.item 0)) := by
  obtain ⟨linked, positioned⟩ := NodeSet.made_twoNotes.linked_positioned
  exact (NodeSet.keyed_order_of_placed linked positioned (Forest.placed_of_genuine (by decide +kernel))).strictOrder

/-- The last text of the note, then its attribute and its first text, in cells behind one of another tree. -/
def noteCells : Cells Node :=
  (Cells.plant #[single (.item 5)] (.item 4)).2.addAll NodeSet.twoNotes.order 1 [.item 1, .item 2]

theorem add_inserts_note :
    StrictOrder NodeSet.twoNotes.order (NodeSet.twoNotes.InTree (.item 0)) ∧
      (∀ n ∈ [Node.item 0, .item 4, .item 1, .item 2], NodeSet.twoNotes.InTree (.item 0) n) ∧
      (noteCells.tree 1).toList = [.item 1, .item 2, .item 4] ∧
      (noteCells.add NodeSet.twoNotes.order 1 (.item 0)).1 = true ∧
      ((noteCells.add NodeSet.twoNotes.order 1 (.item 0)).2.tree 1).toList = [.item 0, .item 1, .item 2, .item 4] ∧
      ((noteCells.add NodeSet.twoNotes.order 1 (.item 0)).2.tree 1).IsBalanced := by
  have parts : ∀ n ∈ [Node.item 0, .item 4, .item 1, .item 2],
      NodeSet.twoNotes.Has n ∧ NodeSet.twoNotes.root n = .item 0 := by decide +kernel
  have known : ∀ n ∈ [Node.item 0, .item 4, .item 1, .item 2], NodeSet.twoNotes.InTree (.item 0) n :=
    fun n met => ⟨(parts n met).1, (parts n met).2⟩
  have facts := add_inserts strictOrder_firstNote known #[single (.item 5)] (rfl : _ = noteCells) rfl
  exact ⟨strictOrder_firstNote, known, by decide +kernel, facts.2.2.2.2.1.mpr (by decide), by decide +kernel,
    facts.2.2.1⟩

end Cells

end XPathAnnotator
