/-
**Node-sets over several trees.**

Nodes of different trees have no order: the one that is added later is taken to come after the other. With that rule
document order may run in a circle, and then a listing can tear the nodes of one tree apart. It cannot as long as no
node is added that comes, in its own tree, before a node added earlier, with a node of another tree added between
them: in each tree the listing is in document order, and nodes of different trees are in the order of their addition.

* `Forest.order_eq_gt_of_root_ne` — comparing nodes of different trees;
* `Forest.Orderly`, `Forest.Precedes` — rows of nodes without such a circle, and what comes first in their listing;
* `Balanced.pairwise_ofList_of_fits` — sorting values that an order finds places for one after the other;
* `NodeSet.toList_severalTrees` — the listing; `NodeSet.toList_tornApart`, one where there is a circle.
-/

import Mathlib
import XPathAnnotator.Proofs.NodeSet.Runs

namespace XPathAnnotator

/-! ### Different trees -/

namespace Forest

variable {f : Forest} {a b m n : Node}

theorem root_of_mem_lineage (linked : f.Linked) (met : m ∈ f.lineage n) : f.root m = f.root n := by
  rcases List.mem_cons.mp met with rfl | above
  · rfl
  · exact (linked.mem_ancestors.mp above).root linked

/-- Rows of nodes without a common one never meet under one parent. -/
theorem orderOfLineages_eq_gt {as bs : List Node} (apart : ∀ a ∈ as, ∀ b ∈ bs, a ≠ b) :
    f.orderOfLineages as bs = .gt := by
  fun_induction orderOfLineages f as bs with
  | case1 a as b p bs =>
    have inAs : p ∈ a :: p :: as := List.mem_cons_of_mem _ List.mem_cons_self
    have inBs : p ∈ b :: p :: bs := List.mem_cons_of_mem _ List.mem_cons_self
    exact absurd rfl (apart p inAs p inBs)
  | case2 a p as b q bs _ ih =>
    exact ih fun x metX y metY => apart x (List.mem_cons_of_mem _ metX) y (List.mem_cons_of_mem _ metY)
  | case3 => rfl

theorem orderByAncestors_eq_gt_of_root_ne (linked : f.Linked) (different : f.root a ≠ f.root b) :
    f.orderByAncestors a b = .gt := by
  have apart : ∀ x ∈ f.lineage a, ∀ y ∈ f.lineage b, x ≠ y := by
    rintro x metX _ metY rfl
    exact different ((root_of_mem_lineage linked metX).symm.trans (root_of_mem_lineage linked metY))
  unfold orderByAncestors
  dsimp only
  split
  · split
    · rfl
    · exact orderOfLineages_eq_gt fun x metX => apart x (List.mem_of_mem_drop metX)
  · split
    · split
      next first =>
        have member : a ∈ f.lineage b := List.mem_of_mem_drop (List.mem_of_mem_head? first)
        exact absurd rfl (apart a List.mem_cons_self a member)
      next => exact orderOfLineages_eq_gt fun x metX y metY => apart x metX y (List.mem_of_mem_drop metY)
    · exact orderOfLineages_eq_gt apart

/-- **A node comes after all nodes of other trees**, and so do these after it. -/
theorem order_eq_gt_of_root_ne (linked : f.Linked) (positioned : f.Positioned) (different : f.root a ≠ f.root b) :
    f.order a b = .gt := by
  have other : a ≠ b := fun same => different (congrArg f.root same)
  unfold order
  rw [if_neg other]
  split
  next p q posA posB =>
    split
    next same => exact absurd (positioned.compare posA posB same).1 different
    next => exact orderByAncestors_eq_gt_of_root_ne linked different
  next => exact orderByAncestors_eq_gt_of_root_ne linked different

/-- What comes first of two nodes in a listing: in one tree what document order puts first, of nodes of different trees
the one that stands first in a row. -/
structure Precedes (f : Forest) (row : List Node) (a b : Node) : Prop where
  inTree : f.root a = f.root b → f.order a b = .lt
  across : f.root a ≠ f.root b → row.idxOf a < row.idxOf b

/-- Whether no node in a row comes before a node of its tree that stands before it, with a node of another tree between
them. -/
def Orderly (f : Forest) (row : List Node) : Prop :=
  ∀ a ∈ row, ∀ b ∈ row, ∀ c ∈ row, row.idxOf a < row.idxOf b → row.idxOf b < row.idxOf c →
    f.root a = f.root c → f.root b ≠ f.root a → f.order a c = .lt

instance (f : Forest) (row : List Node) : Decidable (f.Orderly row) := by
  unfold Orderly
  infer_instance

end Forest

/-! ### Sorting what fits -/

namespace Balanced

variable {α : Type} {order : α → α → Ordering}

/-- **Values that fit one after the other** are listed in the order that they fit in. -/
theorem pairwise_ofList_of_fits (apart : ∀ a b, order a b = .eq → a = b) {R : α → α → Prop} {values : List α}
    (nodup : values.Nodup) (fits : ∀ front new back, values = front ++ new :: back → Fits order R front new) :
    (ofList order values).toList.Pairwise R := by
  induction values using List.reverseRecOn with
  | nil => exact List.Pairwise.nil
  | append_singleton values new ih =>
    obtain ⟨nodupFront, -, different⟩ := List.nodup_append.mp nodup
    have perm := perm_ofList apart nodupFront
    have absent : new ∉ (ofList order values).toList := fun there =>
      different new (perm.mem_iff.mp there) new List.mem_cons_self rfl
    obtain ⟨grown, added, -⟩ := exists_add? apart absent
    have next : ofList order (values ++ [new]) = grown := by
      rw [ofList, List.foldl_concat, ← ofList, add, added, Option.getD_some]
    have sorted : (ofList order values).toList.Pairwise R := by
      refine ih nodupFront fun front other back split => fits front other (back ++ [new]) ?_
      rw [split, List.append_assoc, List.cons_append]
    rw [next]
    exact pairwise_of_add? ((fits values new [] rfl).mono perm.subset) sorted added

end Balanced

/-! ### The listing -/

namespace NodeSet

open Forest

variable {f : Forest} {row front back : List Node} {a b new : Node}

/-- Two nodes of a tree without misplaced attributes compare as their addresses do. -/
theorem order_of_placed (made : f.Made) (placed : f.Placed (f.root a)) (hasA : f.Has a) (hasB : f.Has b)
    (same : f.root a = f.root b) :
    (f.order a b = .lt ↔ f.address a < f.address b) ∧ (f.order a b = .gt ↔ f.address b < f.address a) := by
  obtain ⟨linked, positioned⟩ := made.linked_positioned
  have keyed := keyed_order_of_placed linked positioned placed
  exact ⟨keyed.lt a b ⟨hasA, rfl⟩ ⟨hasB, same.symm⟩, keyed.gt a b ⟨hasA, rfl⟩ ⟨hasB, same.symm⟩⟩

section Orderly

variable (made : f.Made) (nodup : row.Nodup) (known : ∀ n ∈ row, f.Has n ∧ f.Placed (f.root n))
  (orderly : f.Orderly row)

include made nodup known orderly

/-- In an orderly row each node fits behind those that stand before it. -/
theorem fits_of_orderly (split : row = front ++ new :: back) :
    Balanced.Fits f.order (f.Precedes row) front new := by
  obtain ⟨linked, positioned⟩ := made.linked_positioned
  have newIn : new ∈ row := split ▸ List.mem_append_right _ List.mem_cons_self
  have inRow {x : Node} (met : x ∈ front) : x ∈ row := split ▸ List.mem_append_left _ met
  -- every node of the front was added before the new one
  have earlier {x : Node} (met : x ∈ front) : row.idxOf x < row.idxOf new := by
    have absent : new ∉ front := fun there =>
      (List.nodup_append.mp (split ▸ nodup)).2.2 new there new List.mem_cons_self rfl
    rw [split, List.idxOf_append_of_mem met, List.idxOf_append_of_notMem absent]
    exact (List.idxOf_lt_length_of_mem met).trans_le (Nat.le_add_right _ _)
  have compare {x y : Node} (metX : x ∈ row) (metY : y ∈ row) (same : f.root x = f.root y) :=
    order_of_placed made (known x metX).2 (known x metX).1 (known y metY).1 same
  have trans {x y z : Node} (metX : x ∈ row) (metY : y ∈ row) (metZ : z ∈ row) (xy : f.root x = f.root y)
      (yz : f.root y = f.root z) (first : f.order x y = .lt) (second : f.order y z = .lt) : f.order x z = .lt :=
    (compare metX metZ (xy.trans yz)).1.mpr
      (((compare metX metY xy).1.mp first).trans ((compare metY metZ yz).1.mp second))
  have sameTree {x : Node} (met : x ∈ front) (precedes : f.Precedes row new x) : f.root new = f.root x := by
    by_contra different
    exact absurd (precedes.across different) (earlier met).asymm
  refine ⟨fun x met less => ?_, fun x met greater => ?_, fun x metX y metY first second => ?_,
    fun x metX y metY first second => ?_⟩
  · have same : f.root new = f.root x := by
      by_contra different
      rw [order_eq_gt_of_root_ne linked positioned different] at less
      cases less
    exact ⟨fun _ => less, fun different => absurd same different⟩
  · refine ⟨fun same => ?_, fun _ => earlier met⟩
    exact (compare (inRow met) newIn same).1.mpr ((compare newIn (inRow met) same.symm).2.mp greater)
  · have newX := sameTree metX first
    have less := first.inTree newX
    have xy : f.root x = f.root y := by
      by_contra different
      have back := orderly x (inRow metX) y (inRow metY) new newIn (second.across different) (earlier metY) newX.symm
        (Ne.symm different)
      have greater := (compare newIn (inRow metX) newX).2.mpr ((compare (inRow metX) newIn newX.symm).1.mp back)
      rw [less] at greater
      cases greater
    have lessY := trans newIn (inRow metX) (inRow metY) newX xy less (second.inTree xy)
    exact ⟨fun _ => lessY, fun different => absurd (newX.trans xy) different⟩
  · refine ⟨fun xNew => ?_, fun _ => earlier metX⟩
    by_cases xy : f.root x = f.root y
    · have yNew := xy.symm.trans xNew
      exact trans (inRow metX) (inRow metY) newIn xy yNew (first.inTree xy) (second.inTree yNew)
    · exact orderly x (inRow metX) y (inRow metY) new newIn (first.across xy) (earlier metY) xNew (Ne.symm xy)

end Orderly

/-- **The listing of a set of nodes of several trees.** Take a forest that can be made and nodes of any of its trees,
none of which has misplaced attributes. If no node is added that comes before a node of its tree that was added
earlier, with a node of another tree added between them, then the listing holds the nodes of the set, two nodes of one
tree stand in it in document order, and two of different trees in the order of their addition. -/
theorem toList_severalTrees (made : f.Made) {additions : List Node}
    (known : ∀ n ∈ additions, f.Has n ∧ f.Placed (f.root n))
    (orderly : f.Orderly (ofList additions).inOrderOfAddition) :
    ((ofList additions).toList f).Perm (ofList additions).inOrderOfAddition ∧
      ((ofList additions).toList f).Pairwise (f.Precedes (ofList additions).inOrderOfAddition) := by
  have records : (ofList additions).Records f additions := records_ofList additions
  have shows := records.shows
  refine ⟨shows.unsorted ▸ shows.listing, ?_⟩
  have nodup : (ofList additions).inOrderOfAddition.Nodup := records.nodes ▸ nodup_eraseDups additions
  have inside : ∀ n ∈ (ofList additions).inOrderOfAddition, f.Has n ∧ f.Placed (f.root n) :=
    fun n met => known n ((mem_ofList additions n).mp met)
  unfold toList
  by_cases small : (ofList additions).size < 2
  · rw [if_pos small]
    have short : (ofList additions).inOrderOfAddition.length < 2 := small
    match nodes : (ofList additions).inOrderOfAddition, short with
    | [], _ => exact List.Pairwise.nil
    | [n], _ => exact List.pairwise_singleton _ n
  · rw [if_neg small, records.kept]
    exact Balanced.pairwise_ofList_of_fits (fun _ _ => f.eq_of_order_eq) nodup fun front new back split =>
      fits_of_orderly made nodup inside orderly split

/-- Two trees of the note. -/
def twoNotes : Forest :=
  ((Forest.empty.build (.plain false []) none note).1.build (.plain false []) none note).1

theorem made_twoNotes : twoNotes.Made := .build _ _ _ (.build _ _ _ .empty)

/-- A text of the first note, a text and the element of the second one, and the texts of the first one. -/
def interleaved : List Node := [.item 2, .item 8, .item 5, .item 2, .item 4]

theorem toList_severalTrees_twoNotes :
    twoNotes.Made ∧ (∀ n ∈ interleaved, twoNotes.Has n ∧ twoNotes.Placed (twoNotes.root n)) ∧
      twoNotes.Orderly (ofList interleaved).inOrderOfAddition ∧
      (ofList interleaved).toList twoNotes = [.item 2, .item 5, .item 8, .item 4] ∧
      [.item 2, .item 5, .item 8, .item 4].Pairwise (twoNotes.Precedes (ofList interleaved).inOrderOfAddition) := by
  have known : ∀ n ∈ interleaved, twoNotes.Has n ∧ twoNotes.Placed (twoNotes.root n) := by
    have has : ∀ n ∈ interleaved, twoNotes.Has n := by decide +kernel
    exact fun n met => ⟨has n met, placed_of_genuine (by decide +kernel)⟩
  have orderly : twoNotes.Orderly (ofList interleaved).inOrderOfAddition := by decide +kernel
  have listing : (ofList interleaved).toList twoNotes = [.item 2, .item 5, .item 8, .item 4] := by decide +kernel
  exact ⟨made_twoNotes, known, orderly, listing, listing ▸ (toList_severalTrees made_twoNotes known orderly).2⟩

/-- **A tree torn apart**: the second text of a note, both nodes of the other one, and then the first text. The listing
has the first text at its end, though it comes before the second one in their tree. -/
theorem toList_tornApart :
    twoNotes.Made ∧ twoNotes.root (.item 2) = twoNotes.root (.item 4) ∧
      twoNotes.order (.item 2) (.item 4) = .lt ∧
      (ofList [.item 4, .item 5, .item 8, .item 2]).toList twoNotes = [.item 4, .item 5, .item 8, .item 2] :=
  ⟨made_twoNotes, by decide +kernel, by decide +kernel, by decide +kernel⟩

end NodeSet

end XPathAnnotator
